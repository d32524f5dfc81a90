/-
# Incarnations of a pair of addresses

A socket is found by its pair of addresses.  When a connection is reset its sockets go at once, and
with them the claim on the client's port; but its halves stay, and so do its segments under way.  If
the port comes round again, a new connection gets the pair, and what is left of the old one acts on
the new socket: dropping an old half counts the new socket down.

Where nothing of an earlier connection is left when a pair is used again, connections do not meet.
Everything that refers to a socket then sits at a place of its own connection (`Sited`), no two live
connections share a place, and so a step acts on the sockets of one connection only (`Acts`).  What
holds of each connection by itself (`Good`) keeps the three assertions: its SYN is there once and
before all else, and its numbered segments are distinct from those in the buffer of the receiver.
-/
import Turmoil.Stream.Hosts

namespace Turmoil.Stream

open Turmoil.Net (IpAddr SocketAddr)

/-! ## 1. Connections and their places -/

namespace Conn

/-- Do two connections share a place? -/
def meets (c c' : Conn) : Bool :=
  c.place .client == c'.place .client || c.place .client == c'.place .server
    || c.place .server == c'.place .client || c.place .server == c'.place .server

/-- The two ends are different, and each is on the host that the addresses lead to. -/
def sound (c : Conn) : Bool :=
  c.place .client != c.place .server &&
    if c.pair.loc.ip.isLoopback then c.pair.rem.ip == c.pair.loc.ip && c.server == c.client
    else c.pair.loc.ip == c.client && c.pair.rem.ip == c.server && !c.pair.rem.ip.isLoopback

variable {c c' : Conn} {s s' : Side}

theorem meets_of_place (h : c.place s = c'.place s') : c.meets c' = true := by
  cases s <;> cases s' <;> simp [meets, h]

theorem place_other (c : Conn) (s : Side) : (c.place s.other).2 = (c.place s).2.flip := by
  cases s <;> rfl

theorem place_injective (h : c.sound = true) (hp : c.place s = c.place s') : s = s' := by
  have hne : c.place .client ≠ c.place .server := by
    rw [sound, Bool.and_eq_true] at h
    simpa using h.1
  cases s <;> cases s'
  · rfl
  · exact absurd hp hne
  · exact absurd hp.symm hne
  · rfl

/-- What a sound connection's addresses lead to. -/
theorem sound_cases (h : c.sound = true) :
    (c.pair.loc.ip.isLoopback = true ∧ c.pair.rem.ip = c.pair.loc.ip ∧ c.server = c.client) ∨
      (c.pair.loc.ip.isLoopback = false ∧ c.pair.loc.ip = c.client ∧ c.pair.rem.ip = c.server
        ∧ c.pair.rem.ip.isLoopback = false) := by
  rw [sound, Bool.and_eq_true] at h
  obtain ⟨-, h⟩ := h
  cases hl : c.pair.loc.ip.isLoopback with
  | true =>
    rw [hl] at h
    simp only [if_true, Bool.and_eq_true, beq_iff_eq] at h
    exact Or.inl ⟨rfl, h.1, h.2⟩
  | false =>
    rw [hl] at h
    simp at h
    exact Or.inr ⟨rfl, h.1.1, h.1.2, h.2⟩

/-- What one end sends gets to the other. -/
theorem route_place (h : c.sound = true) (s : Side) :
    route (c.place s).1 (c.place s).2.loc (c.place s).2.rem = (c.place s.other).1 := by
  rcases sound_cases h with ⟨hl, hr, hs⟩ | ⟨hl, h1, h2, hr⟩
  · cases s
    · simp [place, Side.other, route, isSame, hr, hl, hs]
    · simp [place, Side.other, route, isSame, SocketPair.flip, hl, hs]
  · cases s
    · simp only [place, Side.other, route, isSame, hr, Bool.false_or, beq_iff_eq]
      split
      · rename_i heq
        rw [← h1, ← h2, heq]
      · exact h2
    · simp only [place, Side.other, route, isSame, SocketPair.flip, hl, Bool.false_or, beq_iff_eq]
      split
      · rename_i heq
        rw [← h1, ← h2, heq]
      · exact h1

end Conn

namespace World

/-! ## 2. What belongs to a connection -/

/-- The connections something is left of. -/
def conns (w : World) : List Conn :=
  w.sockets.values.map (·.conn) ++ w.binds.values.flatMap (fun b => b.deque.map (·.1))
    ++ w.net.map (·.conn) ++ w.connecting.map (·.conn) ++ w.readers.map (·.conn)
    ++ w.writers.map (·.conn)

/-- Is nothing left of an earlier connection that shares a place with this one? -/
def quiet (w : World) (c : Conn) : Bool := c.sound && w.conns.all fun c' => !c.meets c'

/-- The condition on a step: a connection is only opened where it is quiet. -/
def quietStep (w : World) : Op → Bool
  | .connect h dst =>
    match w.hosts.get? h with
    | none => true
    | some ports =>
      match w.dial h dst ports with
      | .error _ => true
      | .ok (_, pair) => w.quiet (w.opening h pair)
  | _ => true

/-- The connection a step acts for. -/
def actor (w : World) : Op → Option Conn
  | .bind .. | .unbind .. | .setUdp .. => none
  | .accept h port => (w.binds.get? (h, port)).bind fun b => b.deque.head?.map (·.1)
  | .connect h dst =>
    (w.hosts.get? h).bind fun ports => (w.dial h dst ports).toOption.map fun r => w.opening h r.2
  | .connected i | .cancel i => w.connecting[i]?.map (·.conn)
  | .tryWrite i _ | .pollShutdown i | .dropWriteHalf i => w.writers[i]?.map (·.conn)
  | .read i _ | .dropReadHalf i => w.readers[i]?.map (·.conn)
  | .deliver i | .lose i => w.net[i]?.map (·.conn)

/-- The socket of a connection at a place, if the socket there is one of that connection. -/
def socketOf (w : World) (c : Conn) (p : Place) : Option Slot :=
  (w.sockets.get? p).filter fun slot => slot.conn = c

/-- **Isolation** of a step: it changes no socket of a connection it does not act for. -/
def Isolated (w : World) (op : Op) (w' : World) : Prop :=
  ∀ c, w.actor op ≠ some c → ∀ p, w'.socketOf c p = w.socketOf c p

/-- Does every connection of a run open quietly? -/
def runQuiet (w : World) : List Op → Bool
  | [] => true
  | op :: ops => w.quietStep op && match w.step op with
    | .ok w => runQuiet w ops
    | .error _ => true

variable {w w' w'' : World} {c c' : Conn} {p : Place} {s : Side} {slot : Slot}

theorem mem_conns : c ∈ w.conns ↔
    (∃ p slot, w.sockets.get? p = some slot ∧ slot.conn = c)
      ∨ (∃ k b o, w.binds.get? k = some b ∧ (c, o) ∈ b.deque) ∨ (∃ e ∈ w.net, e.conn = c)
      ∨ (∃ x ∈ w.connecting, x.conn = c) ∨ (∃ r ∈ w.readers, r.conn = c)
      ∨ ∃ r ∈ w.writers, r.conn = c := by
  simp only [conns, List.mem_append, List.mem_map, List.mem_flatMap, IndexMap.values, or_assoc]
  refine or_congr ?_ (or_congr ?_ Iff.rfl)
  · constructor
    · rintro ⟨slot, ⟨⟨p, slot'⟩, he, rfl⟩, hc⟩
      exact ⟨p, slot', IndexMap.mem_entries.mp he, hc⟩
    · rintro ⟨p, slot, he, hc⟩
      exact ⟨slot, ⟨(p, slot), IndexMap.mem_entries.mpr he, rfl⟩, hc⟩
  · constructor
    · rintro ⟨b, ⟨⟨k, b'⟩, he, rfl⟩, ⟨⟨c', o⟩, hm, rfl⟩⟩
      exact ⟨k, b', o, IndexMap.mem_entries.mp he, hm⟩
    · rintro ⟨k, b, o, he, hm⟩
      exact ⟨b, ⟨(k, b), IndexMap.mem_entries.mpr he, rfl⟩, (c, o), hm, rfl⟩

/-- **Everything sits at a place of its connection**, and no two connections share a place. -/
structure Sited (w : World) : Prop where
  sound : ∀ c ∈ w.conns, c.sound = true ∧ c.id < w.next
  apart : ∀ c ∈ w.conns, ∀ c' ∈ w.conns, c.meets c' = true → c' = c
  slot : ∀ p slot, w.sockets.get? p = some slot → p = slot.conn.place slot.side
  envelope : ∀ e ∈ w.net, (e.host, ⟨e.dst, e.src⟩) = e.conn.place e.side.other
    ∧ (e.segment = .syn → e.side = .client)
  waiting : ∀ h port b, w.binds.get? (h, port) = some b → b.bindAddr.port = port
    ∧ ∀ x ∈ b.deque, (h, ⟨myAddr h b.bindAddr x.2, x.2⟩) = x.1.place .server
  connecting : ∀ x ∈ w.connecting, x.place = x.conn.place .client
  reader : ∀ r ∈ w.readers, r.place = r.conn.place r.side
  writer : ∀ r ∈ w.writers, r.place = r.conn.place r.side

theorem Sited.conn_of_slot (_ : w.Sited) (hs : w.sockets.get? p = some slot) : slot.conn ∈ w.conns :=
  mem_conns.mpr (Or.inl ⟨p, slot, hs, rfl⟩)

/-- **A place of a connection** holds a socket of that connection or none. -/
theorem Sited.slot_of_place (h : w.Sited) (hc : c ∈ w.conns)
    (hs : w.sockets.get? (c.place s) = some slot) : slot.conn = c ∧ slot.side = s := by
  have hp := h.slot _ slot hs
  have hconn := h.apart c hc slot.conn (h.conn_of_slot hs) (Conn.meets_of_place hp)
  rw [hconn] at hp
  exact ⟨hconn, (Conn.place_injective (h.sound c hc).1 hp).symm⟩

/-! ## 3. What a step may do -/

/-- The SYNs of a connection that wait to be accepted. -/
def waitingOf (w : World) (c : Conn) : Nat :=
  match w.binds.get? (c.server, c.pair.rem.port) with
  | none => 0
  | some b => b.deque.countP fun x => x.1 = c

/-- Is this envelope where its connection has it? -/
def EnvelopeSited (e : Envelope) : Prop :=
  (e.host, ⟨e.dst, e.src⟩) = e.conn.place e.side.other ∧ (e.segment = .syn → e.side = .client)

/-- A step on behalf of a connection, or of none: the sockets at its places, its own segments, its
own halves. -/
structure Acts (a : Option Conn) (w w' : World) : Prop where
  next : w.next ≤ w'.next
  sockets : ∀ p, w'.sockets.get? p = w.sockets.get? p ∨ ∃ c s, a = some c ∧ p = c.place s
    ∧ ∀ slot, w'.sockets.get? p = some slot → slot.conn = c ∧ slot.side = s
  net : ∀ e ∈ w'.net, e ∈ w.net ∨ (a = some e.conn ∧ EnvelopeSited e)
  others : ∀ c, a ≠ some c →
    (w'.net.filter fun e => e.conn = c).Perm (w.net.filter fun e => e.conn = c)
  binds : ∀ k b', w'.binds.get? k = some b' →
    (b'.bindAddr.port = k.2 ∨ ∃ b, w.binds.get? k = some b ∧ b.bindAddr = b'.bindAddr)
    ∧ ∀ x ∈ b'.deque, (∃ b, w.binds.get? k = some b ∧ b.bindAddr = b'.bindAddr ∧ x ∈ b.deque)
      ∨ (a = some x.1 ∧ (k.1, ⟨myAddr k.1 b'.bindAddr x.2, x.2⟩) = x.1.place .server)
  deques : ∀ c, a ≠ some c → w'.waitingOf c ≤ w.waitingOf c
  connecting : ∀ x ∈ w'.connecting,
    (∃ y ∈ w.connecting, y.place = x.place ∧ y.conn = x.conn
      ∧ (x.acked = true → y.acked = true ∨ a = some x.conn))
    ∨ (a = some x.conn ∧ x.place = x.conn.place .client)
  readers : ∀ r ∈ w'.readers,
    (∃ r' ∈ w.readers, r'.place = r.place ∧ r'.conn = r.conn ∧ r'.side = r.side)
    ∨ (a = some r.conn ∧ r.place = r.conn.place r.side)
  writers : ∀ r ∈ w'.writers,
    (∃ r' ∈ w.writers, r'.place = r.place ∧ r'.conn = r.conn ∧ r'.side = r.side)
    ∨ (a = some r.conn ∧ r.place = r.conn.place r.side)

variable {a : Option Conn}

theorem Acts.refl (a : Option Conn) (w : World) : Acts a w w where
  next := Nat.le_refl _
  sockets _ := Or.inl rfl
  net _ he := Or.inl he
  others _ _ := List.Perm.refl _
  binds _ b' hb := ⟨Or.inr ⟨b', hb, rfl⟩, fun _ hx => Or.inl ⟨b', hb, rfl, hx⟩⟩
  deques _ _ := Nat.le_refl _
  connecting x hx := Or.inl ⟨x, hx, rfl, rfl, Or.inl⟩
  readers r hr := Or.inl ⟨r, hr, rfl, rfl, rfl⟩
  writers r hr := Or.inl ⟨r, hr, rfl, rfl, rfl⟩

theorem Acts.trans (h : Acts a w w') (h' : Acts a w' w'') : Acts a w w'' where
  next := Nat.le_trans h.next h'.next
  sockets p := by
    rcases h'.sockets p with heq | hact
    · rw [heq]
      exact h.sockets p
    · exact Or.inr hact
  net e he := by
    rcases h'.net e he with he | hnew
    · exact h.net e he
    · exact Or.inr hnew
  others c hc := (h'.others c hc).trans (h.others c hc)
  binds k b'' hb := by
    obtain ⟨hport, hdeque⟩ := h'.binds k b'' hb
    constructor
    · rcases hport with hport | ⟨b', hb', haddr'⟩
      · exact Or.inl hport
      · rcases (h.binds k b' hb').1 with hport | ⟨b, hb, haddr⟩
        · exact Or.inl (haddr' ▸ hport)
        · exact Or.inr ⟨b, hb, haddr.trans haddr'⟩
    · intro x hx
      rcases hdeque x hx with ⟨b', hb', haddr', hx'⟩ | hnew
      · rcases (h.binds k b' hb').2 x hx' with ⟨b, hb, haddr, hxb⟩ | ⟨hact, hplace⟩
        · exact Or.inl ⟨b, hb, haddr.trans haddr', hxb⟩
        · exact Or.inr ⟨hact, haddr' ▸ hplace⟩
      · exact Or.inr hnew
  deques c hc := Nat.le_trans (h'.deques c hc) (h.deques c hc)
  connecting x hx := by
    rcases h'.connecting x hx with ⟨y, hy, hplace, hconn, hack⟩ | hnew
    · rcases h.connecting y hy with ⟨z, hz, hplace', hconn', hack'⟩ | ⟨hact, hnew⟩
      · refine Or.inl ⟨z, hz, hplace'.trans hplace, hconn'.trans hconn, fun hx => ?_⟩
        rcases hack hx with hy | hact
        · rw [← hconn]
          exact hack' hy
        · exact Or.inr hact
      · rw [hconn] at hact hnew
        exact Or.inr ⟨hact, hplace.symm.trans hnew⟩
    · exact Or.inr hnew
  readers r hr := by
    rcases h'.readers r hr with ⟨r', hr', hplace, hconn, hside⟩ | hnew
    · rcases h.readers r' hr' with ⟨r0, hr0, hplace', hconn', hside'⟩ | ⟨hact, hnew⟩
      · exact Or.inl ⟨r0, hr0, hplace'.trans hplace, hconn'.trans hconn, hside'.trans hside⟩
      · rw [hconn] at hact
        rw [hconn, hside] at hnew
        exact Or.inr ⟨hact, hplace.symm.trans hnew⟩
    · exact Or.inr hnew
  writers r hr := by
    rcases h'.writers r hr with ⟨r', hr', hplace, hconn, hside⟩ | hnew
    · rcases h.writers r' hr' with ⟨r0, hr0, hplace', hconn', hside'⟩ | ⟨hact, hnew⟩
      · exact Or.inl ⟨r0, hr0, hplace'.trans hplace, hconn'.trans hconn, hside'.trans hside⟩
      · rw [hconn] at hact
        rw [hconn, hside] at hnew
        exact Or.inr ⟨hact, hplace.symm.trans hnew⟩
    · exact Or.inr hnew

/-- A step leaves no connection behind that was not there, but for the one it acts for. -/
theorem Acts.conns (h : Acts a w w') (hc : c ∈ w'.conns) : c ∈ w.conns ∨ a = some c := by
  rcases mem_conns.mp hc with ⟨p, slot, hs, rfl⟩ | ⟨k, b, o, hb, hx⟩ | ⟨e, he, rfl⟩ | ⟨x, hx, rfl⟩
    | ⟨r, hr, rfl⟩ | ⟨r, hr, rfl⟩
  · rcases h.sockets p with heq | ⟨c, s, hact, -, hnew⟩
    · exact Or.inl (mem_conns.mpr (Or.inl ⟨p, slot, heq ▸ hs, rfl⟩))
    · rw [(hnew slot hs).1]
      exact Or.inr hact
  · rcases (h.binds k b hb).2 (c, o) hx with ⟨b0, hb0, -, hx0⟩ | ⟨hact, -⟩
    · exact Or.inl (mem_conns.mpr (Or.inr (Or.inl ⟨k, b0, o, hb0, hx0⟩)))
    · exact Or.inr hact
  · rcases h.net e he with he | ⟨hact, -⟩
    · exact Or.inl (mem_conns.mpr (Or.inr (Or.inr (Or.inl ⟨e, he, rfl⟩))))
    · exact Or.inr hact
  · rcases h.connecting x hx with ⟨y, hy, -, hconn, -⟩ | ⟨hact, -⟩
    · exact Or.inl (mem_conns.mpr (Or.inr (Or.inr (Or.inr (Or.inl ⟨y, hy, hconn⟩)))))
    · exact Or.inr hact
  · rcases h.readers r hr with ⟨r0, hr0, -, hconn, -⟩ | ⟨hact, -⟩
    · exact Or.inl (mem_conns.mpr (Or.inr (Or.inr (Or.inr (Or.inr (Or.inl ⟨r0, hr0, hconn⟩))))))
    · exact Or.inr hact
  · rcases h.writers r hr with ⟨r0, hr0, -, hconn, -⟩ | ⟨hact, -⟩
    · exact Or.inl (mem_conns.mpr (Or.inr (Or.inr (Or.inr (Or.inr (Or.inr ⟨r0, hr0, hconn⟩))))))
    · exact Or.inr hact

/-- A connection that may act: one that is there, or a new one in a quiet place. -/
def MayAct (w w' : World) (c : Conn) : Prop :=
  c ∈ w.conns ∨ (w.quiet c = true ∧ c.id < w'.next)

theorem MayAct.sound (h : w.MayAct w' c) (hw : w.Sited) (hn : w.next ≤ w'.next) :
    c.sound = true ∧ c.id < w'.next := by
  rcases h with h | ⟨h, hid⟩
  · exact ⟨(hw.sound c h).1, Nat.lt_of_lt_of_le (hw.sound c h).2 hn⟩
  · rw [quiet, Bool.and_eq_true] at h
    exact ⟨h.1, hid⟩

/-- It shares no place with any other. -/
theorem MayAct.apart (h : w.MayAct w' c) (hw : w.Sited) (hc' : c' ∈ w.conns)
    (hm : c.meets c' = true) : c' = c := by
  rcases h with h | ⟨h, -⟩
  · exact hw.apart c h c' hc' hm
  · rw [quiet, Bool.and_eq_true, List.all_eq_true] at h
    have := h.2 c' hc'
    rw [hm] at this
    cases this

theorem meets_comm (c c' : Conn) : c.meets c' = c'.meets c := by
  simp only [Conn.meets, Bool.or_assoc, beq_eq_decide]
  rw [Bool.or_left_comm (decide (c.place .client = c'.place .server))]
  simp only [eq_comm]

/-- **What acts for one connection keeps everything sited.** -/
theorem Acts.sited (h : Acts a w w') (hw : w.Sited) (ha : ∀ c, a = some c → w.MayAct w' c) :
    w'.Sited where
  sound c hc := by
    rcases h.conns hc with hc | hact
    · exact ⟨(hw.sound c hc).1, Nat.lt_of_lt_of_le (hw.sound c hc).2 h.next⟩
    · exact (ha c hact).sound hw h.next
  apart c hc c' hc' hm := by
    rcases h.conns hc with hc | hact
    · rcases h.conns hc' with hc' | hact'
      · exact hw.apart c hc c' hc' hm
      · rw [meets_comm] at hm
        exact ((ha c' hact').apart hw hc hm).symm
    · rcases h.conns hc' with hc' | hact'
      · exact (ha c hact).apart hw hc' hm
      · exact Option.some.inj (hact'.symm.trans hact)
  slot p slot hs := by
    rcases h.sockets p with heq | ⟨c, s, -, hp, hnew⟩
    · exact hw.slot p slot (heq ▸ hs)
    · obtain ⟨hconn, hside⟩ := hnew slot hs
      rw [hp, hconn, hside]
  envelope e he := by
    rcases h.net e he with he | ⟨-, hsited⟩
    · exact hw.envelope e he
    · exact hsited
  waiting hh port b' hb := by
    obtain ⟨hport, hdeque⟩ := h.binds (hh, port) b' hb
    constructor
    · rcases hport with hport | ⟨b, hb, haddr⟩
      · exact hport
      · rw [← haddr]
        exact (hw.waiting hh port b hb).1
    · intro x hx
      rcases hdeque x hx with ⟨b, hb, haddr, hx⟩ | ⟨-, hplace⟩
      · rw [← haddr]
        exact (hw.waiting hh port b hb).2 x hx
      · exact hplace
  connecting x hx := by
    rcases h.connecting x hx with ⟨y, hy, hplace, hconn, -⟩ | ⟨-, hplace⟩
    · rw [← hplace, ← hconn]
      exact hw.connecting y hy
    · exact hplace
  reader r hr := by
    rcases h.readers r hr with ⟨r', hr', hplace, hconn, hside⟩ | ⟨-, hplace⟩
    · rw [← hplace, ← hconn, ← hside]
      exact hw.reader r' hr'
    · exact hplace
  writer r hr := by
    rcases h.writers r hr with ⟨r', hr', hplace, hconn, hside⟩ | ⟨-, hplace⟩
    · rw [← hplace, ← hconn, ← hside]
      exact hw.writer r' hr'
    · exact hplace

/-- **What acts for one connection leaves the sockets of the others alone.** -/
theorem Acts.socketOf (h : Acts a w w') (hw : w.Sited) (ha : ∀ c, a = some c → w.MayAct w' c)
    (hc : a ≠ some c) (p : Place) : w'.socketOf c p = w.socketOf c p := by
  rcases h.sockets p with heq | ⟨c1, s, hact, hp, hnew⟩
  · rw [World.socketOf, World.socketOf, heq]
  · have hne : c1 ≠ c := by
      rintro rfl
      exact hc hact
    have hold : ∀ slot, w.sockets.get? p = some slot → slot.conn = c1 := by
      intro slot hs
      exact (ha c1 hact).apart hw (hw.conn_of_slot hs)
        (Conn.meets_of_place (hp.symm.trans (hw.slot p slot hs)))
    have hnone : ∀ o : Option Slot, (∀ slot, o = some slot → slot.conn = c1) →
        (o.filter fun slot => slot.conn = c) = none := by
      intro o ho
      rw [Option.filter_eq_none_iff]
      intro slot hs hdec
      exact hne ((ho slot hs).symm.trans (of_decide_eq_true hdec))
    rw [World.socketOf, World.socketOf, hnone _ hold, hnone _ fun slot hs => (hnew slot hs).1]

/-! ## 4. One connection by itself -/

/-- The number of a segment. -/
def seqOf : Segment → Option Nat
  | .data seq _ | .fin seq => some seq
  | .syn | .rst => none

/-- The numbers of the segments under way from one side of a connection. -/
def seqs (w : World) (c : Conn) (s : Side) : List Nat :=
  (w.net.filter fun e => e.conn = c).filterMap fun e => if e.side = s then seqOf e.segment else none

/-- The SYNs of a connection, under way or waiting to be accepted. -/
def synsOf (w : World) (c : Conn) : Nat :=
  (w.net.filter fun e => e.conn = c).countP (fun e => e.segment = .syn) + w.waitingOf c

/-- One direction of a connection: the numbers under way are distinct, none of them is in the buffer
of the receiver, and the sender is past all of them. -/
structure Lane (under : List Nat) (next : Option Nat)
    (buf : Option (IndexMap Nat SequencedSegment)) : Prop where
  nodup : under.Nodup
  fresh : ∀ b, buf = some b → ∀ q ∈ under, b.contains q = false
  sent : ∀ n, next = some n → ∀ q ∈ under, q < n
  buffered : ∀ n, next = some n → ∀ b, buf = some b → ∀ q, b.contains q = true → q < n

/-- What holds of a connection by itself. -/
structure Good (w : World) (c : Conn) : Prop where
  once : w.synsOf c ≤ 1
  first : 0 < w.synsOf c →
    (∃ slot, w.socketOf c (c.place .client) = some slot ∧ slot.socket = StreamSocket.new)
    ∧ w.socketOf c (c.place .server) = none ∧ (∀ e ∈ w.net, e.conn = c → e.segment = .syn)
    ∧ (∀ r ∈ w.readers, r.conn ≠ c) ∧ ∀ r ∈ w.writers, r.conn ≠ c
  acked : ∀ x ∈ w.connecting, x.conn = c → x.acked = true → w.synsOf c = 0
  lanes : ∀ s, Lane (w.seqs c s) ((w.socketOf c (c.place s)).map fun slot => slot.socket.nextSendSeq)
    ((w.socketOf c (c.place s.other)).map fun slot => slot.socket.buf)

/-- What two worlds have in common of a connection. -/
structure Same (c : Conn) (w w' : World) : Prop where
  sockets : ∀ p, w'.socketOf c p = w.socketOf c p
  net : (w'.net.filter fun e => e.conn = c).Perm (w.net.filter fun e => e.conn = c)
  waiting : w'.waitingOf c ≤ w.waitingOf c
  acked : ∀ x ∈ w'.connecting, x.conn = c → x.acked = true →
    ∃ y ∈ w.connecting, y.conn = c ∧ y.acked = true
  readers : ∀ r ∈ w'.readers, r.conn = c → ∃ r' ∈ w.readers, r'.conn = c
  writers : ∀ r ∈ w'.writers, r.conn = c → ∃ r' ∈ w.writers, r'.conn = c

theorem Acts.same (h : Acts a w w') (hw : w.Sited) (ha : ∀ c, a = some c → w.MayAct w' c)
    (hc : a ≠ some c) : Same c w w' where
  sockets := h.socketOf hw ha hc
  net := h.others c hc
  waiting := h.deques c hc
  acked x hx hconn hack := by
    rcases h.connecting x hx with ⟨y, hy, -, hyconn, hyack⟩ | ⟨hact, -⟩
    · rcases hyack hack with hyack | hact
      · exact ⟨y, hy, hyconn.trans hconn, hyack⟩
      · exact absurd (hconn ▸ hact) hc
    · exact absurd (hconn ▸ hact) hc
  readers r hr hconn := by
    rcases h.readers r hr with ⟨r', hr', -, hconn', -⟩ | ⟨hact, -⟩
    · exact ⟨r', hr', hconn'.trans hconn⟩
    · exact absurd (hconn ▸ hact) hc
  writers r hr hconn := by
    rcases h.writers r hr with ⟨r', hr', -, hconn', -⟩ | ⟨hact, -⟩
    · exact ⟨r', hr', hconn'.trans hconn⟩
    · exact absurd (hconn ▸ hact) hc

theorem Lane.of_perm {under under' : List Nat} {next : Option Nat}
    {buf : Option (IndexMap Nat SequencedSegment)} (h : Lane under next buf)
    (hp : under'.Perm under) : Lane under' next buf where
  nodup := hp.nodup_iff.mpr h.nodup
  fresh b hb q hq := h.fresh b hb q (hp.mem_iff.mp hq)
  sent n hn q hq := h.sent n hn q (hp.mem_iff.mp hq)
  buffered := h.buffered

theorem mem_filter_conn {l l' : List Envelope}
    (h : (l'.filter fun e => e.conn = c).Perm (l.filter fun e => e.conn = c)) {e : Envelope}
    (he : e ∈ l') (hc : e.conn = c) : e ∈ l := by
  have hm : e ∈ l'.filter fun e => e.conn = c := List.mem_filter.mpr ⟨he, decide_eq_true hc⟩
  exact (List.mem_filter.mp (h.mem_iff.mp hm)).1

/-- **A connection nothing was done to** stays as it was. -/
theorem Good.same (h : w.Good c) (hs : Same c w w') : w'.Good c := by
  have hsyns : w'.synsOf c ≤ w.synsOf c := by
    rw [synsOf, synsOf, hs.net.countP_eq]
    exact Nat.add_le_add_left hs.waiting _
  refine ⟨Nat.le_trans hsyns h.once, fun hpos => ?_, fun x hx hconn hack => ?_, fun s => ?_⟩
  · obtain ⟨h1, h2, h3, h4, h5⟩ := h.first (Nat.lt_of_lt_of_le hpos hsyns)
    refine ⟨?_, ?_, fun e he hconn => h3 e (mem_filter_conn hs.net he hconn) hconn,
      fun r hr hconn => ?_, fun r hr hconn => ?_⟩
    · rw [hs.sockets]
      exact h1
    · rw [hs.sockets]
      exact h2
    · obtain ⟨r', hr', hconn'⟩ := hs.readers r hr hconn
      exact h4 r' hr' hconn'
    · obtain ⟨r', hr', hconn'⟩ := hs.writers r hr hconn
      exact h5 r' hr' hconn'
  · obtain ⟨y, hy, hyconn, hyack⟩ := hs.acked x hx hconn hack
    exact Nat.eq_zero_of_le_zero (h.acked y hy hyconn hyack ▸ hsyns)
  · rw [hs.sockets, hs.sockets]
    exact (h.lanes s).of_perm (hs.net.filterMap _)

/-- Past the handshake only the two directions count. -/
theorem Good.of_lanes (hsyns : w.synsOf c = 0)
    (hl : ∀ s, Lane (w.seqs c s) ((w.socketOf c (c.place s)).map fun slot => slot.socket.nextSendSeq)
      ((w.socketOf c (c.place s.other)).map fun slot => slot.socket.buf)) : w.Good c := by
  refine ⟨by omega, fun hpos => ?_, fun _ _ _ _ => hsyns, hl⟩
  omega

theorem Good.synsOf_of_writer (h : w.Good c) {r : WriteHalf} (hr : r ∈ w.writers)
    (hc : r.conn = c) : w.synsOf c = 0 := by
  by_contra hne
  exact (h.first (Nat.pos_of_ne_zero hne)).2.2.2.2 r hr hc

theorem Good.synsOf_of_reader (h : w.Good c) {r : ReadHalf} (hr : r ∈ w.readers)
    (hc : r.conn = c) : w.synsOf c = 0 := by
  by_contra hne
  exact (h.first (Nat.pos_of_ne_zero hne)).2.2.2.1 r hr hc

theorem Good.synsOf_of_envelope (h : w.Good c) {e : Envelope} (he : e ∈ w.net) (hc : e.conn = c)
    (hs : e.segment ≠ .syn) : w.synsOf c = 0 := by
  by_contra hne
  exact hs ((h.first (Nat.pos_of_ne_zero hne)).2.2.1 e he hc)

/-! ## 5. One direction -/

section Lane

variable {under : List Nat} {n : Nat} {buf : Option (IndexMap Nat SequencedSegment)}

/-- A number is taken and its segment sent. -/
theorem Lane.assign (h : Lane under (some n) buf) : Lane (under ++ [n]) (some (n + 1)) buf where
  nodup := by
    rw [List.nodup_append]
    refine ⟨h.nodup, List.nodup_singleton n, fun a ha b hb => ?_⟩
    rw [List.mem_singleton] at hb
    have := h.sent n rfl a ha
    omega
  fresh b hb q hq := by
    rcases List.mem_append.mp hq with hq | hq
    · exact h.fresh b hb q hq
    · rw [List.mem_singleton] at hq
      rw [hq]
      by_contra hne
      have := h.buffered n rfl b hb n (by simpa using hne)
      omega
  sent m hm q hq := by
    cases hm
    rcases List.mem_append.mp hq with hq | hq
    · have := h.sent n rfl q hq
      omega
    · rw [List.mem_singleton] at hq
      omega
  buffered m hm b hb q hq := by
    cases hm
    have := h.buffered n rfl b hb q hq
    omega

/-- A number is taken and its segment refused. -/
theorem Lane.skip (h : Lane under (some n) buf) : Lane under (some (n + 1)) buf where
  nodup := h.nodup
  fresh := h.fresh
  sent m hm q hq := by
    cases hm
    have := h.sent n rfl q hq
    omega
  buffered m hm b hb q hq := by
    cases hm
    have := h.buffered n rfl b hb q hq
    omega

/-- The sender is gone. -/
theorem Lane.no_sender {next : Option Nat} (h : Lane under next buf) : Lane under none buf where
  nodup := h.nodup
  fresh := h.fresh
  sent _ hm := by cases hm
  buffered _ hm := by cases hm

/-- The receiver is gone. -/
theorem Lane.no_receiver {next : Option Nat} (h : Lane under next buf) : Lane under next none where
  nodup := h.nodup
  fresh _ hb := by cases hb
  sent := h.sent
  buffered _ _ _ hb := by cases hb

/-- A segment is lost. -/
theorem Lane.lose {under' : List Nat} {next : Option Nat} (h : Lane under next buf)
    (hs : under'.Subperm under) : Lane under' next buf where
  nodup := by
    obtain ⟨l, hp, hl⟩ := hs
    exact hp.nodup_iff.mp (hl.nodup h.nodup)
  fresh b hb q hq := h.fresh b hb q (hs.subset hq)
  sent m hm q hq := h.sent m hm q (hs.subset hq)
  buffered := h.buffered

/-- A segment arrives. -/
theorem Lane.arrive {under' : List Nat} {next : Option Nat} {b b' : IndexMap Nat SequencedSegment}
    {q : Nat} (h : Lane under next (some b)) (hp : under.Perm (q :: under'))
    (hb : ∀ x, b'.contains x = true → b.contains x = true ∨ x = q) : Lane under' next (some b') where
  nodup := (List.nodup_cons.mp (hp.nodup_iff.mp h.nodup)).2
  fresh m hm x hx := by
    cases hm
    by_contra hne
    rcases hb x (by simpa using hne) with hold | rfl
    · rw [h.fresh b rfl x (hp.mem_iff.mpr (List.mem_cons_of_mem q hx))] at hold
      cases hold
    · exact (List.nodup_cons.mp (hp.nodup_iff.mp h.nodup)).1 hx
  sent m hm x hx := h.sent m hm x (hp.mem_iff.mpr (List.mem_cons_of_mem q hx))
  buffered m hm b1 hb1 x hx := by
    cases hb1
    rcases hb x hx with hold | rfl
    · exact h.buffered m hm b rfl x hold
    · exact h.sent m hm x (hp.mem_iff.mpr List.mem_cons_self)

end Lane

/-! ## 6. The parts of a step -/

/-- Channels, credits and ports are nobody's business. -/
theorem Acts.free (a : Option Conn) (w : World) (hosts : IndexMap IpAddr Ports)
    (channels : Nat → Channel) (credits : FlowId → Nat) :
    Acts a w { w with hosts := hosts, channels := channels, credits := credits } :=
  { Acts.refl a w with }

theorem Acts.insert (w : World) (hp : p = c.place s) (hc : slot.conn = c) (hs : slot.side = s) :
    Acts (some c) w { w with sockets := w.sockets.insert p slot } :=
  { Acts.refl (some c) w with
    sockets := fun p' => by
      by_cases hpp : p' = p
      · refine Or.inr ⟨c, s, rfl, hpp.trans hp, fun slot' hs' => ?_⟩
        rw [IndexMap.get?_insert, if_pos hpp] at hs'
        cases hs'
        exact ⟨hc, hs⟩
      · exact Or.inl (by rw [IndexMap.get?_insert, if_neg hpp]) }

theorem Acts.reset (w : World) (hp : p = c.place s) : Acts (some c) w (w.resetStream p) :=
  { Acts.refl (some c) w with
    sockets := fun p' => by
      by_cases hpp : p' = p
      · refine Or.inr ⟨c, s, rfl, hpp.trans hp, fun slot' hs' => ?_⟩
        rw [resetStream, IndexMap.get?_swapRemove, if_pos hpp] at hs'
        cases hs'
      · exact Or.inl (by rw [resetStream, IndexMap.get?_swapRemove, if_neg hpp]) }

theorem filter_conn_append (w : World) {e : Envelope} (he : e.conn ≠ c) :
    ((w.net ++ [e]).filter fun e => e.conn = c) = w.net.filter fun e => e.conn = c := by
  rw [List.filter_append, List.filter_cons_of_neg (by simpa using he), List.filter_nil,
    List.append_nil]

theorem Acts.push (w : World) {e : Envelope} (hc : e.conn = c) (he : EnvelopeSited e) :
    Acts (some c) w { w with net := w.net ++ [e] } :=
  { Acts.refl (some c) w with
    net := fun e' he' => by
      rcases List.mem_append.mp he' with he' | he'
      · exact Or.inl he'
      · rw [List.mem_singleton] at he'
        rw [he', hc]
        exact Or.inr ⟨rfl, he⟩
    others := fun c' hne => by
      refine List.Perm.of_eq (filter_conn_append w fun h => hne ?_)
      rw [← hc, h] }

/-- What a sound connection sends from one end is on its way to the other. -/
theorem sendFrom_cases {segment : Segment} (hp : p = c.place s) (h : c.sound = true)
    (hsyn : segment = .syn → s = .client) (hs : w.sendFrom p segment c s = some w') :
    ∃ e : Envelope, w' = { w with net := w.net ++ [e] } ∧ e.conn = c ∧ e.side = s
      ∧ e.segment = segment ∧ EnvelopeSited e := by
  unfold sendFrom send at hs
  split at hs
  · cases hs
    refine ⟨_, rfl, rfl, rfl, rfl, ?_, hsyn⟩
    subst hp
    refine Prod.ext ?_ ?_
    · exact Conn.route_place h s
    · exact (Conn.place_other c s).symm
  · cases hs

theorem eraseIdx_perm {α : Type} {l : List α} {i : Nat} {x : α} (h : l[i]? = some x) :
    l.Perm (x :: l.eraseIdx i) := by
  obtain ⟨hi, rfl⟩ := List.getElem?_eq_some_iff.mp h
  exact (List.getElem_cons_eraseIdx_perm hi).symm

theorem Acts.eraseNet {i : Nat} {e : Envelope} (he : w.net[i]? = some e) :
    Acts (some e.conn) w { w with net := w.net.eraseIdx i } :=
  { Acts.refl (some e.conn) w with
    net := fun e' he' => Or.inl (List.mem_of_mem_eraseIdx he')
    others := fun c hne => by
      have hp := (eraseIdx_perm he).filter fun e => e.conn = c
      rw [List.filter_cons_of_neg (by simpa using fun h : e.conn = c => hne (by rw [h]))] at hp
      exact hp.symm }

theorem Acts.eraseReader (a : Option Conn) (w : World) (i : Nat) :
    Acts a w { w with readers := w.readers.eraseIdx i } :=
  { Acts.refl a w with
    readers := fun r hr => Or.inl ⟨r, List.mem_of_mem_eraseIdx hr, rfl, rfl, rfl⟩ }

theorem Acts.eraseWriter (a : Option Conn) (w : World) (i : Nat) :
    Acts a w { w with writers := w.writers.eraseIdx i } :=
  { Acts.refl a w with
    writers := fun r hr => Or.inl ⟨r, List.mem_of_mem_eraseIdx hr, rfl, rfl, rfl⟩ }

theorem Acts.setReader {i : Nat} {r : ReadHalf} (hr : w.readers[i]? = some r) (rx : Rx) :
    Acts a w { w with readers := w.readers.set i { r with rx := rx } } :=
  { Acts.refl a w with
    readers := fun r' hr' => by
      rcases List.mem_or_eq_of_mem_set hr' with hr' | rfl
      · exact Or.inl ⟨r', hr', rfl, rfl, rfl⟩
      · exact Or.inl ⟨r, List.mem_of_getElem? hr, rfl, rfl, rfl⟩ }

theorem Acts.setWriter {i : Nat} {r : WriteHalf} (hr : w.writers[i]? = some r) (b : Bool) :
    Acts a w { w with writers := w.writers.set i { r with isShutdown := b } } :=
  { Acts.refl a w with
    writers := fun r' hr' => by
      rcases List.mem_or_eq_of_mem_set hr' with hr' | rfl
      · exact Or.inl ⟨r', hr', rfl, rfl, rfl⟩
      · exact Or.inl ⟨r, List.mem_of_getElem? hr, rfl, rfl, rfl⟩ }

theorem Acts.openHalves (w : World) {stream : Nat} {write read : FlowId} (hp : p = c.place s) :
    Acts (some c) w (w.openHalves p stream write read c s) :=
  { Acts.refl (some c) w with
    readers := fun r hr => by
      rcases List.mem_append.mp hr with hr | hr
      · exact Or.inl ⟨r, hr, rfl, rfl, rfl⟩
      · rw [List.mem_singleton] at hr
        subst hr
        exact Or.inr ⟨rfl, hp⟩
    writers := fun r hr => by
      rcases List.mem_append.mp hr with hr | hr
      · exact Or.inl ⟨r, hr, rfl, rfl, rfl⟩
      · rw [List.mem_singleton] at hr
        subst hr
        exact Or.inr ⟨rfl, hp⟩ }

/-- What is at a place of a connection is its own. -/
def Owns (w : World) (c : Conn) (s : Side) : Prop :=
  ∀ slot, w.sockets.get? (c.place s) = some slot → slot.conn = c ∧ slot.side = s

theorem Sited.owns (h : w.Sited) (hc : c ∈ w.conns) (s : Side) : w.Owns c s :=
  fun _ hs => h.slot_of_place hc hs

theorem Acts.owns (h : Acts (some c) w w') (hc : c.sound = true) (ho : w.Owns c s) :
    w'.Owns c s := by
  intro slot hs
  rcases h.sockets (c.place s) with heq | ⟨c1, s1, hact, hp, hnew⟩
  · exact ho slot (heq ▸ hs)
  · cases hact
    obtain ⟨hconn, hside⟩ := hnew slot hs
    exact ⟨hconn, hside.trans (Conn.place_injective hc hp).symm⟩

/-! ## 7. Past the handshake -/

/-- The world with the socket in a slot replaced. -/
def putSocket (w : World) (p : Place) (slot : Slot) (socket : StreamSocket) : World :=
  let slot := { slot with socket := socket }
  { w with sockets := w.sockets.insert p slot }

theorem socketOf_insert (w : World) (hc : slot.conn = c) (p' : Place) :
    ({ w with sockets := w.sockets.insert p slot } : World).socketOf c p'
      = if p' = p then some slot else w.socketOf c p' := by
  rw [socketOf, socketOf, IndexMap.get?_insert]
  split
  · rw [Option.filter_some, if_pos (decide_eq_true hc)]
  · rfl

theorem socketOf_putSocket (w : World) (hc : slot.conn = c) (socket : StreamSocket) (p' : Place) :
    (w.putSocket p slot socket).socketOf c p'
      = if p' = p then some { slot with socket := socket } else w.socketOf c p' :=
  socketOf_insert w (show ({ slot with socket := socket } : Slot).conn = c from hc) p'

theorem socketOf_reset (w : World) (c : Conn) (p p' : Place) :
    (w.resetStream p).socketOf c p' = if p' = p then none else w.socketOf c p' := by
  rw [socketOf, socketOf, resetStream, IndexMap.get?_swapRemove]
  split <;> rfl

theorem socketOf_of_owns (ho : w.Owns c s) (hs : w.sockets.get? (c.place s) = some slot) :
    w.socketOf c (c.place s) = some slot := by
  rw [socketOf, hs, Option.filter_some, if_pos (decide_eq_true (ho slot hs).1)]

/-- **One socket of a connection is replaced**: each direction by itself. -/
theorem lanes_of_socket (hc : c.sound = true) {o : Option Slot}
    (hsock : ∀ p, w'.socketOf c p = if p = c.place s then o else w.socketOf c p)
    (h1 : Lane (w'.seqs c s) (o.map fun slot => slot.socket.nextSendSeq)
      ((w.socketOf c (c.place s.other)).map fun slot => slot.socket.buf))
    (h2 : Lane (w'.seqs c s.other)
      ((w.socketOf c (c.place s.other)).map fun slot => slot.socket.nextSendSeq)
      (o.map fun slot => slot.socket.buf)) (s' : Side) :
    Lane (w'.seqs c s') ((w'.socketOf c (c.place s')).map fun slot => slot.socket.nextSendSeq)
      ((w'.socketOf c (c.place s'.other)).map fun slot => slot.socket.buf) := by
  have hne : c.place s.other ≠ c.place s :=
    fun h => s.other_ne (Conn.place_injective hc h)
  rcases Side.cases s s' with rfl | rfl
  · rw [hsock, if_pos rfl, hsock, if_neg hne]
    exact h1
  · rw [Side.other_other, hsock, if_neg hne, hsock, if_pos rfl]
    exact h2

theorem seqs_push (w : World) (e : Envelope) (c : Conn) (s : Side) :
    ({ w with net := w.net ++ [e] } : World).seqs c s
      = w.seqs c s ++ (if e.conn = c ∧ e.side = s then (seqOf e.segment).toList else []) := by
  rw [seqs, seqs, List.filter_append, List.filterMap_append]
  congr 1
  by_cases hc : e.conn = c
  · rw [List.filter_cons_of_pos (by simpa using hc), List.filter_nil]
    by_cases hs : e.side = s
    · rw [if_pos ⟨hc, hs⟩]
      cases hq : seqOf e.segment <;> simp [hs, hq]
    · rw [if_neg fun h => hs h.2]
      simp [hs]
  · rw [List.filter_cons_of_neg (by simpa using hc), if_neg fun h => hc h.1]
    rfl

theorem synsOf_push (w : World) {e : Envelope} (he : e.segment ≠ .syn) (c : Conn) :
    ({ w with net := w.net ++ [e] } : World).synsOf c = w.synsOf c := by
  rw [synsOf, synsOf, List.filter_append, List.countP_append]
  have : (([e].filter fun e => e.conn = c).countP fun e => e.segment = .syn) = 0 := by
    rw [List.countP_eq_zero]
    intro e' he'
    have := List.mem_singleton.mp (List.mem_filter.mp he').1
    simpa [this] using he
  rw [this]
  rfl

/-- What a connection past its handshake does, and keeps. -/
structure Plays (c : Conn) (w w' : World) : Prop where
  acts : Acts (some c) w w'
  good : w.synsOf c = 0 → w.Good c → w'.synsOf c = 0 ∧ w'.Good c

theorem Plays.trans (h : Plays c w w') (h' : Plays c w' w'') : Plays c w w'' where
  acts := h.acts.trans h'.acts
  good hs hg := by
    obtain ⟨hs', hg'⟩ := h.good hs hg
    exact h'.good hs' hg'

theorem Plays.refl (c : Conn) (w : World) : Plays c w w := ⟨Acts.refl _ w, fun hs hg => ⟨hs, hg⟩⟩

/-- A step that changes neither sockets nor segments. -/
theorem Plays.of_eq (h : Acts (some c) w w') (hsock : w'.sockets = w.sockets) (hnet : w'.net = w.net)
    (hbinds : w'.binds = w.binds) : Plays c w w' := by
  refine ⟨h, fun hs hg => ?_⟩
  have hsyns : w'.synsOf c = 0 := by
    rw [← hs, synsOf, synsOf, waitingOf, waitingOf, hnet, hbinds]
  refine ⟨hsyns, Good.of_lanes hsyns fun s => ?_⟩
  rw [seqs, socketOf, socketOf, hnet, hsock]
  exact hg.lanes s

theorem Plays.reset (hc : c.sound = true) (w : World) (s : Side) :
    Plays c w (w.resetStream (c.place s)) := by
  refine ⟨Acts.reset w rfl, fun hs hg => ⟨hs, Good.of_lanes hs fun s' => ?_⟩⟩
  refine lanes_of_socket hc (socketOf_reset w c (c.place s)) ?_ ?_ s'
  · exact (hg.lanes s).no_sender
  · have := hg.lanes s.other
    rw [Side.other_other] at this
    exact this.no_receiver

/-- **A socket is replaced**: what it sends, and what it has received, are one direction each. -/
theorem Plays.put (hc : c.sound = true) (ho : w.Owns c s)
    (hs : w.sockets.get? (c.place s) = some slot) {socket : StreamSocket}
    (h1 : ∀ l b, Lane l (some slot.socket.nextSendSeq) b → Lane l (some socket.nextSendSeq) b)
    (h2 : ∀ l n, Lane l n (some slot.socket.buf) → Lane l n (some socket.buf)) :
    Plays c w (w.putSocket (c.place s) slot socket) := by
  obtain ⟨hconn, hside⟩ := ho slot hs
  refine ⟨Acts.insert w rfl hconn hside, fun hsyns hg => ⟨hsyns, Good.of_lanes hsyns fun s' => ?_⟩⟩
  refine lanes_of_socket hc (socketOf_putSocket w hconn socket) ?_ ?_ s'
  · have := hg.lanes s
    rw [socketOf_of_owns ho hs] at this
    exact h1 _ _ this
  · have := hg.lanes s.other
    rw [Side.other_other, socketOf_of_owns ho hs] at this
    exact h2 _ _ this

theorem Plays.close (hc : c.sound = true) (ho : w.Owns c s) :
    Plays c w (w.closeStreamHalf (c.place s)) := by
  unfold closeStreamHalf
  split
  · exact Plays.refl c w
  · rename_i slot hs
    dsimp only
    split
    · exact Plays.reset hc w s
    · exact Plays.put hc ho hs (fun _ _ h => h) fun _ _ h => h

theorem Plays.pushRst {e : Envelope} (hc : e.conn = c) (hseg : e.segment = .rst)
    (he : EnvelopeSited e) : Plays c w { w with net := w.net ++ [e] } := by
  refine ⟨Acts.push w hc he, fun hs hg => ?_⟩
  have hsyns := (synsOf_push w (by rw [hseg]; exact nofun) c).trans hs
  refine ⟨hsyns, Good.of_lanes hsyns fun s => ?_⟩
  rw [seqs_push, hseg]
  have hnil : (if e.conn = c ∧ e.side = s then (seqOf Segment.rst).toList else []) = [] := by
    split <;> rfl
  rw [hnil, List.append_nil]
  exact hg.lanes s

/-- **A numbered segment is sent**, or its number is lost. -/
theorem Plays.write (hc : c.sound = true) (ho : w.Owns c s) {seq : Nat} {segment : Segment}
    (hassign : w.assignSendSeq (c.place s) = some (w', seq)) (hseg : seqOf segment = some seq) :
    Plays c w ((w'.sendFrom (c.place s) segment c s).getD w') := by
  obtain ⟨slot, hslot, hw'⟩ := Option.map_eq_some_iff.mp hassign
  obtain ⟨hw', hq⟩ := Prod.mk.inj hw'
  obtain ⟨hconn, hside⟩ := ho slot hslot
  have hput : w' = w.putSocket (c.place s) slot slot.socket.assignSeq.1 := hw'.symm
  have hskip : Plays c w w' := by
    rw [hput]
    exact Plays.put hc ho hslot (fun _ _ h => h.skip) fun _ _ h => h
  have hsyn : segment ≠ .syn := by
    rintro rfl
    cases hseg
  cases hsend : w'.sendFrom (c.place s) segment c s with
  | none => exact hskip
  | some w2 =>
    obtain ⟨e, rfl, hec, hes, heseg, hsited⟩ := sendFrom_cases rfl hc (fun h => absurd h hsyn) hsend
    refine ⟨hskip.acts.trans (Acts.push w' hec hsited), fun hs hg => ?_⟩
    have hsyns := (synsOf_push w' (by rw [heseg]; exact hsyn) c).trans (hskip.good hs hg).1
    refine ⟨hsyns, Good.of_lanes hsyns fun s' => ?_⟩
    have hsock : ∀ p, ({ w' with net := w'.net ++ [e] } : World).socketOf c p = if p = c.place s then
        some { slot with socket := slot.socket.assignSeq.1 } else w.socketOf c p := by
      rw [hput]
      exact socketOf_putSocket w hconn _
    have hseqs : ∀ s', w'.seqs c s' = w.seqs c s' := by
      intro s'
      rw [hput]
      rfl
    refine lanes_of_socket hc hsock ?_ ?_ s'
    · have := hg.lanes s
      rw [socketOf_of_owns ho hslot] at this
      rw [seqs_push, hseqs, if_pos ⟨hec, hes⟩, heseg, hseg, ← hq]
      exact this.assign
    · have := hg.lanes s.other
      rw [Side.other_other, socketOf_of_owns ho hslot] at this
      rw [seqs_push, hseqs, if_neg fun h => s.ne_other (hes.symm.trans h.2), List.append_nil]
      exact this

theorem assignSendSeq_writers {seq : Nat} (h : w.assignSendSeq p = some (w', seq)) :
    w'.writers = w.writers := by
  obtain ⟨slot, -, h⟩ := Option.map_eq_some_iff.mp h
  cases h
  rfl

section Halves

variable {i : Nat}

theorem Sited.writer_mem (hw : w.Sited) {half : WriteHalf} (hr : w.writers[i]? = some half) :
    half.conn ∈ w.conns ∧ half.conn.sound = true ∧ half.place = half.conn.place half.side := by
  have hmem := List.mem_of_getElem? hr
  have hc : half.conn ∈ w.conns :=
    mem_conns.mpr (Or.inr (Or.inr (Or.inr (Or.inr (Or.inr ⟨half, hmem, rfl⟩)))))
  exact ⟨hc, (hw.sound _ hc).1, hw.writer half hmem⟩

theorem Sited.reader_mem (hw : w.Sited) {half : ReadHalf} (hr : w.readers[i]? = some half) :
    half.conn ∈ w.conns ∧ half.conn.sound = true ∧ half.place = half.conn.place half.side := by
  have hmem := List.mem_of_getElem? hr
  have hc : half.conn ∈ w.conns :=
    mem_conns.mpr (Or.inr (Or.inr (Or.inr (Or.inr (Or.inl ⟨half, hmem, rfl⟩)))))
  exact ⟨hc, (hw.sound _ hc).1, hw.reader half hmem⟩

theorem tryWrite_plays (hw : w.Sited) {half : WriteHalf} (hr : w.writers[i]? = some half)
    (buf : Bytes) : Plays half.conn w (w.tryWrite i buf) := by
  obtain ⟨hc, hsound, hp⟩ := hw.writer_mem hr
  unfold tryWrite
  rw [hr]
  dsimp only
  split
  · exact Plays.refl _ w
  · have hfree : Plays half.conn w { w with
        credits := Function.update w.credits half.flow (w.credits half.flow - 1) } :=
      Plays.of_eq (Acts.free _ w _ _ _) rfl rfl rfl
    have ho := hfree.acts.owns hsound (hw.owns hc half.side)
    rw [hp]
    split
    · exact hfree
    · rename_i hassign
      exact hfree.trans (Plays.write hsound ho hassign rfl)

theorem pollShutdown_plays (hw : w.Sited) {half : WriteHalf} (hr : w.writers[i]? = some half) :
    Plays half.conn w (w.pollShutdown i) := by
  obtain ⟨hc, hsound, hp⟩ := hw.writer_mem hr
  unfold pollShutdown
  rw [hr]
  dsimp only
  split
  · exact Plays.refl _ w
  · rw [hp]
    split
    · exact Plays.refl _ w
    · rename_i w1 seq hassign
      have hwrite := Plays.write hsound (hw.owns hc half.side) hassign
        (show seqOf (.fin seq) = some seq from rfl)
      split
      · rename_i hsend
        rw [hsend] at hwrite
        exact hwrite
      · rename_i w2 hsend
        rw [hsend] at hwrite
        obtain ⟨e, rfl, -⟩ := sendFrom_cases rfl hsound (fun h => by cases h) hsend
        have hr2 : ({ w1 with net := w1.net ++ [e] } : World).writers[i]? = some half := by
          show w1.writers[i]? = some half
          rw [assignSendSeq_writers hassign]
          exact hr
        rw [← hp]
        exact hwrite.trans (Plays.of_eq (Acts.setWriter hr2 true) rfl rfl rfl)

theorem dropWriteHalf_plays (hw : w.Sited) {half : WriteHalf} (hr : w.writers[i]? = some half) :
    Plays half.conn w (w.dropWriteHalf i) := by
  obtain ⟨hc, hsound, hp⟩ := hw.writer_mem hr
  have herase : Plays half.conn w { w with writers := w.writers.eraseIdx i } :=
    Plays.of_eq (Acts.eraseWriter _ w i) rfl rfl rfl
  have ho := herase.acts.owns hsound (hw.owns hc half.side)
  unfold dropWriteHalf
  rw [hr]
  dsimp only
  rw [hp]
  refine herase.trans ?_
  split
  · exact Plays.close hsound ho
  · split
    · exact Plays.close hsound ho
    · rename_i w1 seq hassign
      have hwrite := Plays.write hsound ho hassign (show seqOf (.fin seq) = some seq from rfl)
      exact hwrite.trans (Plays.close hsound (hwrite.acts.owns hsound ho))

theorem read_plays (c : Conn) (i : Nat) (call : ReadCall) : Plays c w (w.read i call) := by
  unfold read
  split
  · exact Plays.refl c w
  · rename_i half hr
    exact Plays.of_eq ((Acts.setReader hr _).trans (Acts.free _ _ w.hosts _ _)) rfl rfl rfl

theorem dropReadHalf_plays (hw : w.Sited) {half : ReadHalf} (hr : w.readers[i]? = some half) :
    Plays half.conn w (w.dropReadHalf i) := by
  obtain ⟨hc, hsound, hp⟩ := hw.reader_mem hr
  have herase : Plays half.conn w
      ({ w with readers := w.readers.eraseIdx i }.dropReceiver half.stream) :=
    Plays.of_eq ((Acts.eraseReader _ w i).trans (Acts.free _ _ _ _ _)) rfl rfl rfl
  have ho := herase.acts.owns hsound (hw.owns hc half.side)
  unfold dropReadHalf
  rw [hr]
  dsimp only
  rw [hp]
  refine herase.trans ?_
  split
  · refine Plays.trans ?_ (Plays.reset hsound _ half.side)
    cases hsend : ({ w with readers := w.readers.eraseIdx i }.dropReceiver half.stream).sendFrom
        (half.conn.place half.side) .rst half.conn half.side with
    | none => exact Plays.refl _ _
    | some w2 =>
      obtain ⟨e, rfl, hec, -, heseg, hsited⟩ := sendFrom_cases rfl hsound (fun h => by cases h) hsend
      exact Plays.pushRst hec heseg hsited
  · exact Plays.close hsound ho

end Halves

/-! ## 8. The network -/

/-- The loop of `buffer` numbers nothing, and buffers nothing new. -/
theorem bufferLoop_spec : ∀ (fuel : Nat) (x : StreamSocket) (ch : Channel),
    (StreamSocket.bufferLoop fuel x ch).1.nextSendSeq = x.nextSendSeq ∧
    ∀ q, (StreamSocket.bufferLoop fuel x ch).1.buf.contains q = true → x.buf.contains q = true
  | 0, _, _ => ⟨rfl, fun _ h => h⟩
  | fuel + 1, x, ch => by
    rw [StreamSocket.bufferLoop]
    cases hget : x.buf.get? (x.recvSeq + 1) with
    | none => exact ⟨rfl, fun _ h => h⟩
    | some segment =>
      have hremove : ∀ q, (x.buf.swapRemove (x.recvSeq + 1)).contains q = true →
          x.buf.contains q = true := by
        intro q hq
        rw [IndexMap.contains_swapRemove] at hq
        simp only [Bool.and_eq_true] at hq
        exact hq.2
      dsimp only
      split
      · exact ⟨rfl, hremove⟩
      · cases segment with
        | data bytes =>
          dsimp only
          split
          · obtain ⟨h1, h2⟩ := bufferLoop_spec fuel { x with
              buf := x.buf.swapRemove (x.recvSeq + 1), recvSeq := x.recvSeq + 1 } _
            exact ⟨h1, fun q hq => hremove q (h2 q hq)⟩
          · exact ⟨rfl, hremove⟩
          · refine ⟨rfl, fun q hq => ?_⟩
            rw [IndexMap.contains_insert] at hq
            rcases Bool.or_eq_true_iff.mp hq with hq | hq
            · rw [of_decide_eq_true hq]
              exact IndexMap.contains_iff.mpr ⟨_, hget⟩
            · exact hremove q hq
        | fin =>
          dsimp only
          split
          · exact ⟨rfl, hremove⟩
          · obtain ⟨h1, h2⟩ := bufferLoop_spec fuel { x with
              buf := x.buf.swapRemove (x.recvSeq + 1), sender := false, recvSeq := x.recvSeq + 1 } ch
            exact ⟨h1, fun q hq => hremove q (h2 q hq)⟩

theorem socket_buffer_spec {x x' : StreamSocket} {ch ch' : Channel} {seq : Nat}
    {segment : SequencedSegment} {outcome : Buffered}
    (h : x.buffer ch seq segment = some (x', ch', outcome)) :
    x'.nextSendSeq = x.nextSendSeq ∧
      ∀ q, x'.buf.contains q = true → x.buf.contains q = true ∨ q = seq := by
  unfold StreamSocket.buffer at h
  split at h
  · cases h
  · have hloop := bufferLoop_spec (({ x with buf := x.buf.insert seq segment } :
      StreamSocket).buf.keys.length) { x with buf := x.buf.insert seq segment } ch
    rw [Option.some.inj h] at hloop
    refine ⟨hloop.1, fun q hq => ?_⟩
    have := hloop.2 q hq
    rw [IndexMap.contains_insert] at this
    rcases Bool.or_eq_true_iff.mp this with hq | hq
    · exact Or.inr (of_decide_eq_true hq)
    · exact Or.inl hq

section Net

variable {i : Nat} {e : Envelope}

theorem net_perm_of_get (he : w.net[i]? = some e) :
    (w.net.filter fun x => x.conn = e.conn).Perm
      (e :: (w.net.eraseIdx i).filter fun x => x.conn = e.conn) := by
  have hp := (eraseIdx_perm he).filter fun x => x.conn = e.conn
  rwa [List.filter_cons_of_pos (by simp)] at hp

theorem seqs_perm_of_get (he : w.net[i]? = some e) (s : Side) :
    (w.seqs e.conn s).Perm ((if e.side = s then (seqOf e.segment).toList else [])
      ++ ({ w with net := w.net.eraseIdx i } : World).seqs e.conn s) := by
  have hp := (net_perm_of_get he).filterMap fun x => if x.side = s then seqOf x.segment else none
  refine hp.trans (List.Perm.of_eq ?_)
  rw [List.filterMap_cons]
  by_cases hs : e.side = s
  · rw [if_pos hs, if_pos hs]
    cases seqOf e.segment <;> rfl
  · rw [if_neg hs, if_neg hs]
    rfl

theorem synsOf_of_get (he : w.net[i]? = some e) :
    w.synsOf e.conn = ({ w with net := w.net.eraseIdx i } : World).synsOf e.conn
      + if e.segment = .syn then 1 else 0 := by
  rw [synsOf, synsOf, (net_perm_of_get he).countP_eq, List.countP_cons]
  simp only [waitingOf]
  by_cases h : e.segment = .syn
  · simp [h]
    omega
  · simp [h]

/-- **A segment is lost.** -/
theorem Good.lose (he : w.net[i]? = some e) (hg : w.Good e.conn) :
    ({ w with net := w.net.eraseIdx i } : World).Good e.conn := by
  have hsyns : ({ w with net := w.net.eraseIdx i } : World).synsOf e.conn ≤ w.synsOf e.conn := by
    rw [synsOf_of_get he]
    exact Nat.le_add_right _ _
  refine ⟨Nat.le_trans hsyns hg.once, fun hpos => ?_, fun x hx hconn hack => ?_, fun s => ?_⟩
  · obtain ⟨h1, h2, h3, h4⟩ := hg.first (Nat.lt_of_lt_of_le hpos hsyns)
    exact ⟨h1, h2, fun x hx => h3 x (List.mem_of_mem_eraseIdx hx), h4⟩
  · have := hg.acked x hx hconn hack
    omega
  · refine (hg.lanes s).lose ?_
    have hp := seqs_perm_of_get he s
    exact (List.Sublist.subperm (List.sublist_append_right _ _)).trans hp.symm.subperm

theorem Sited.envelope_mem (hw : w.Sited) (he : w.net[i]? = some e) :
    e.conn ∈ w.conns ∧ e.conn.sound = true ∧ EnvelopeSited e := by
  have hmem := List.mem_of_getElem? he
  have hc : e.conn ∈ w.conns := mem_conns.mpr (Or.inr (Or.inr (Or.inl ⟨e, hmem, rfl⟩)))
  exact ⟨hc, (hw.sound _ hc).1, hw.envelope e hmem⟩

/-- **A numbered segment arrives**: it is not a duplicate, and the buffer takes it. -/
theorem buffer_spec (hw : w.Sited) (he : w.net[i]? = some e) (hg : w.Good e.conn) {q : Nat}
    (hq : seqOf e.segment = some q) (segment : SequencedSegment) :
    ∃ w' rst, ({ w with net := w.net.eraseIdx i } : World).buffer (e.conn.place e.side.other) q
        segment = .ok (w', rst) ∧ Acts (some e.conn) w w' ∧ w'.synsOf e.conn = 0
      ∧ w'.Good e.conn := by
  obtain ⟨hc, hsound, -⟩ := hw.envelope_mem he
  have hsyn : e.segment ≠ .syn := by
    intro h
    rw [h] at hq
    cases hq
  have hzero := hg.synsOf_of_envelope (List.mem_of_getElem? he) rfl hsyn
  have hsyns : ({ w with net := w.net.eraseIdx i } : World).synsOf e.conn = 0 := by
    have := synsOf_of_get he
    omega
  have hacts := Acts.eraseNet he
  unfold buffer
  split
  · exact ⟨_, _, rfl, hacts, hsyns, Good.lose he hg⟩
  · rename_i slot hs
    have ho := hw.owns hc e.side.other
    obtain ⟨hconn, hside⟩ := ho slot hs
    -- the direction the segment came by
    have hlane := hg.lanes e.side
    rw [socketOf_of_owns ho hs] at hlane
    have hperm := seqs_perm_of_get he e.side
    rw [if_pos rfl, hq] at hperm
    have hfresh : slot.socket.buf.contains q = false := by
      refine hlane.fresh _ rfl q (hperm.mem_iff.mpr ?_)
      exact List.mem_append_left _ (List.mem_singleton.mpr rfl)
    cases hbuf : slot.socket.buffer (w.channels slot.stream) q segment with
    | none =>
      unfold StreamSocket.buffer at hbuf
      rw [hfresh, if_neg Bool.false_ne_true] at hbuf
      cases hbuf
    | some r =>
      obtain ⟨socket, channel, outcome⟩ := r
      obtain ⟨hnext, hcontains⟩ := socket_buffer_spec hbuf
      have hput : Acts (some e.conn) w
          ({ w with net := w.net.eraseIdx i }.putSocket (e.conn.place e.side.other) slot socket) :=
        hacts.trans (Acts.insert _ rfl hconn hside)
      refine ⟨_, _, rfl, hput.trans (Acts.free _ _ w.hosts _ w.credits), hsyns,
        Good.of_lanes hsyns fun s' => ?_⟩
      refine lanes_of_socket hsound (socketOf_putSocket { w with net := w.net.eraseIdx i } hconn
        socket) ?_ ?_ s'
      · have := hg.lanes e.side.other
        rw [socketOf_of_owns ho hs] at this
        have hp := seqs_perm_of_get he e.side.other
        rw [if_neg e.side.ne_other] at hp
        rw [Option.map_some, hnext]
        exact this.of_perm hp.symm
      · rw [Side.other_other]
        exact hlane.arrive hperm hcontains

theorem place_of_same (hc : c.sound = true)
    (hs : isSame (c.place s).2.loc (c.place s).2.rem = true) :
    (c.place s.other).1 = (c.place s).1 := by
  have := Conn.route_place hc s
  rw [route, if_pos hs] at this
  exact this.symm

/-- The RST in answer to a segment. -/
theorem reply_plays (hc : e.conn.sound = true) (he : EnvelopeSited e) :
    Plays e.conn w (if isSame e.src e.dst then w.resetStream (e.host, ⟨e.src, e.dst⟩)
      else (w.send e.host e.dst e.src .rst e.conn e.side.other).getD w) := by
  have hpair : (e.conn.place e.side).2 = ⟨e.src, e.dst⟩ := by
    have := Conn.place_other e.conn e.side.other
    rw [Side.other_other, ← he.1] at this
    exact this
  split
  · rename_i hsame
    have hhost : e.host = (e.conn.place e.side).1 := by
      have := place_of_same (s := e.side) hc (by rw [hpair]; exact hsame)
      rw [← this, ← he.1]
    have hplace : (e.host, ⟨e.src, e.dst⟩) = e.conn.place e.side := Prod.ext hhost hpair.symm
    rw [hplace]
    exact Plays.reset hc w e.side
  · have hsend : w.send e.host e.dst e.src .rst e.conn e.side.other
        = w.sendFrom (e.host, ⟨e.dst, e.src⟩) .rst e.conn e.side.other := rfl
    rw [hsend, he.1]
    cases hs : w.sendFrom (e.conn.place e.side.other) .rst e.conn e.side.other with
    | none => exact Plays.refl _ w
    | some w2 =>
      obtain ⟨e', rfl, hec, -, heseg, hsited⟩ := sendFrom_cases rfl hc (fun h => by cases h) hs
      exact Plays.pushRst hec heseg hsited

/-- A listener answers from the address its client asked for. -/
theorem myAddr_eq (hc : c.sound = true) {bindAddr : SocketAddr}
    (hm : matchesBind bindAddr c.pair.rem = true) :
    myAddr c.server bindAddr c.pair.loc = c.pair.rem := by
  have hport : bindAddr.port = c.pair.rem.port := by
    simp only [matchesBind, Bool.or_eq_true, Bool.and_eq_true, beq_iff_eq] at hm
    rcases hm with h | h
    · exact h.2
    · rw [h]
  have hloop : ∀ ip : IpAddr, ip.isLoopback = true → ip.isUnspecified = false := by
    intro ip hip
    cases ip with
    | v4 a =>
      simp only [IpAddr.isLoopback, IpAddr.isUnspecified, beq_iff_eq, beq_eq_false_iff_ne] at hip ⊢
      rintro rfl
      revert hip
      decide
    | v6 a =>
      simp only [IpAddr.isLoopback, IpAddr.isUnspecified, beq_iff_eq, beq_eq_false_iff_ne] at hip ⊢
      rintro rfl
      revert hip
      decide
  have hip : (myAddr c.server bindAddr c.pair.loc).ip = c.pair.rem.ip := by
    rcases Conn.sound_cases hc with ⟨hl, hr, hs⟩ | ⟨hl, h1, h2, hr⟩
    · simp only [myAddr, hl, if_true, hloop _ hl]
      exact hr.symm
    · simp only [myAddr, hl, Bool.false_eq_true, if_false]
      simp only [matchesBind, Bool.or_eq_true, Bool.and_eq_true, beq_iff_eq] at hm
      split
      · exact h2.symm
      · rename_i hu
        rcases hm with h | h
        · exact absurd h.1 hu
        · rw [h]
  have hsame : (myAddr c.server bindAddr c.pair.loc).port = c.pair.rem.port := hport
  cases hrem : c.pair.rem with
  | mk ip port =>
    rw [hrem] at hip hsame
    cases hm' : myAddr c.server bindAddr c.pair.loc with
    | mk ip' port' =>
      rw [hm'] at hip hsame
      cases hip
      cases hsame
      rfl

theorem waitingOf_insert (w : World) (k : IpAddr × UInt16) (b : ServerSocket) (c : Conn) :
    ({ w with binds := w.binds.insert k b } : World).waitingOf c
      = if (c.server, c.pair.rem.port) = k then b.deque.countP fun x => x.1 = c
        else w.waitingOf c := by
  rw [waitingOf, IndexMap.get?_insert]
  by_cases hk : (c.server, c.pair.rem.port) = k
  · rw [if_pos hk, if_pos hk]
  · rw [if_neg hk, if_neg hk]
    rfl

/-- **A SYN is queued**: it is the same SYN, in another place. -/
theorem Good.queue (hw : w.Sited) (he : w.net[i]? = some e) (hg : w.Good e.conn)
    (hseg : e.segment = .syn) {b : ServerSocket}
    (hb : w.binds.get? (e.host, e.dst.port) = some b) (hm : matchesBind b.bindAddr e.dst = true) :
    let sock := { b with deque := b.deque ++ [(e.conn, e.src)] }
    Acts (some e.conn) w
        { w with net := w.net.eraseIdx i, binds := w.binds.insert (e.host, e.dst.port) sock } ∧
      ({ w with net := w.net.eraseIdx i, binds := w.binds.insert (e.host, e.dst.port) sock } :
        World).Good e.conn := by
  intro sock
  obtain ⟨hc, hsound, hplace, hside⟩ := hw.envelope_mem he
  rw [hside hseg] at hplace
  obtain ⟨hhost, hpair⟩ := Prod.mk.inj hplace
  have hdst : e.dst = e.conn.pair.rem := congrArg SocketPair.loc hpair
  have hsrc : e.src = e.conn.pair.loc := congrArg SocketPair.rem hpair
  have hkey : (e.conn.server, e.conn.pair.rem.port) = (e.host, e.dst.port) := by
    rw [hdst]
    exact Prod.ext hhost.symm rfl
  have hwaiting : w.waitingOf e.conn = b.deque.countP fun x => x.1 = e.conn := by
    rw [waitingOf, hkey, hb]
  have hmy : (e.host, ⟨myAddr e.host b.bindAddr e.src, e.src⟩) = e.conn.place .server := by
    rw [hdst] at hm
    rw [hhost, hsrc, myAddr_eq hsound hm]
    rfl
  have hacts : Acts (some e.conn) { w with net := w.net.eraseIdx i }
      { w with net := w.net.eraseIdx i, binds := w.binds.insert (e.host, e.dst.port) sock } := by
    refine { Acts.refl (some e.conn) { w with net := w.net.eraseIdx i } with
      binds := fun k b' hb' => ?_, deques := fun c' hne => ?_ }
    · rw [IndexMap.get?_insert] at hb'
      split at hb'
      · rename_i hk
        cases hb'
        subst hk
        refine ⟨Or.inr ⟨b, hb, rfl⟩, fun x hx => ?_⟩
        rcases List.mem_append.mp hx with hx | hx
        · exact Or.inl ⟨b, hb, rfl, hx⟩
        · rw [List.mem_singleton] at hx
          subst hx
          exact Or.inr ⟨rfl, hmy⟩
      · exact ⟨Or.inr ⟨b', hb', rfl⟩, fun x hx => Or.inl ⟨b', hb', rfl, hx⟩⟩
    · rw [waitingOf_insert { w with net := w.net.eraseIdx i }]
      split
      · rename_i hk
        have hne' : e.conn ≠ c' := fun h => hne (by rw [h])
        rw [waitingOf, hk]
        simp only [hb, sock, List.countP_append, List.countP_cons, List.countP_nil, hne',
          decide_false, Bool.false_eq_true, if_false]
        exact Nat.le_refl _
      · exact Nat.le_refl _
  refine ⟨(Acts.eraseNet he).trans hacts, ?_⟩
  have hsyns : ({ w with net := w.net.eraseIdx i, binds := w.binds.insert (e.host, e.dst.port) sock } :
      World).synsOf e.conn = w.synsOf e.conn := by
    have hget := synsOf_of_get he
    rw [if_pos hseg] at hget
    rw [hget, synsOf, waitingOf_insert { w with net := w.net.eraseIdx i }, if_pos hkey, synsOf]
    have : ({ w with net := w.net.eraseIdx i } : World).waitingOf e.conn = w.waitingOf e.conn := rfl
    rw [this, hwaiting]
    simp only [sock, List.countP_append, List.countP_cons, List.countP_nil, decide_true, if_true]
    omega
  have hpos : 0 < w.synsOf e.conn := by
    have := synsOf_of_get he
    rw [if_pos hseg] at this
    omega
  obtain ⟨h1, h2, h3, h4⟩ := hg.first hpos
  refine ⟨hsyns ▸ hg.once, fun _ => ⟨h1, h2, fun x hx => h3 x (List.mem_of_mem_eraseIdx hx), h4⟩,
    fun x hx hconn hack => ?_, (Good.lose he hg).lanes⟩
  have := hg.acked x hx hconn hack
  omega

end Net

/-! ## 9. Opening and accepting -/

/-- The three assertions, and the expectation. -/
def forbidden : Panic → Bool
  | .alreadyConnected | .duplicateSegment | .missingStreamSocket => true
  | .clientHostMissing | .portsExhausted | .serverSocketBufferFull | .ipVersionMismatch => false

/-- A turn of one connection, or of none: what it did, and what holds of the connection after. -/
structure Turn (a : Option Conn) (w w' : World) : Prop where
  acts : Acts a w w'
  may : ∀ c, a = some c → w.MayAct w' c
  good : ∀ c, a = some c → w'.Good c

/-- The step ends well, or not in one of the assertions. -/
def Fine (post : World → Prop) (x : Except Panic World) : Prop :=
  match x with
  | .ok w => post w
  | .error p => forbidden p = false

/-- Everything is sited, and every connection is good. -/
structure Inv (w : World) : Prop where
  sited : w.Sited
  good : ∀ c, w.Good c

theorem Turn.inv (hw : w.Inv) (h : Turn a w w') : w'.Inv where
  sited := h.acts.sited hw.sited h.may
  good c := by
    by_cases hc : a = some c
    · exact h.good c hc
    · exact (hw.good c).same (h.acts.same hw.sited h.may hc)

/-- A connection that is there plays. -/
theorem Turn.of_plays (hw : w.Inv) (hc : c ∈ w.conns) (hs : w.synsOf c = 0) (h : Plays c w w') :
    Turn (some c) w w' where
  acts := h.acts
  may := by
    rintro c' ⟨⟩
    exact Or.inl hc
  good := by
    rintro c' ⟨⟩
    exact (h.good hs (hw.good c)).2

theorem Turn.of_none (h : Acts none w w') : Turn none w w' where
  acts := h
  may _ hc := by cases hc
  good _ hc := by cases hc

/-- Nothing is there of a connection that nothing is left of. -/
theorem nothing_of_not_mem (hc : c ∉ w.conns) :
    (∀ p, w.socketOf c p = none) ∧ (w.net.filter fun e => e.conn = c) = [] ∧ w.waitingOf c = 0
      ∧ (∀ x ∈ w.connecting, x.conn ≠ c) ∧ (∀ r ∈ w.readers, r.conn ≠ c)
      ∧ ∀ r ∈ w.writers, r.conn ≠ c := by
  rw [mem_conns] at hc
  push Not at hc
  obtain ⟨h1, h2, h3, h4, h5, h6⟩ := hc
  refine ⟨fun p => ?_, ?_, ?_, h4, h5, h6⟩
  · rw [socketOf, Option.filter_eq_none_iff]
    intro slot hs
    simpa using h1 p slot hs
  · rw [List.filter_eq_nil_iff]
    intro e he
    simpa using h3 e he
  · rw [waitingOf]
    split
    · rfl
    · rename_i b hb
      rw [List.countP_eq_zero]
      intro x hx
      have := h2 _ b x.2 hb
      simp only [decide_eq_true_eq]
      rintro rfl
      exact this hx

theorem Lane.none_under : Lane [] (some StreamSocket.new.nextSendSeq)
    (some StreamSocket.new.buf) where
  nodup := List.nodup_nil
  fresh _ _ _ hq := by cases hq
  sent _ _ _ hq := by cases hq
  buffered n _ b hb q hq := by
    cases hb
    cases hq

theorem seqs_of_syns (h : ∀ e ∈ w.net, e.conn = c → e.segment = .syn) (s : Side) :
    w.seqs c s = [] := by
  rw [seqs, List.filterMap_eq_nil_iff]
  intro e he
  obtain ⟨hm, hc⟩ := List.mem_filter.mp he
  rw [h e hm (of_decide_eq_true hc)]
  split <;> rfl

/-- A new socket at a place of a connection without segments: both directions are empty. -/
theorem lanes_of_new (hc : c.sound = true) (hseqs : ∀ s, w'.seqs c s = []) {slot : Slot}
    (hsock : ∀ p, w'.socketOf c p = if p = c.place s then some slot else w.socketOf c p)
    (hnew : slot.socket = StreamSocket.new)
    (hother : ∀ slot', w.socketOf c (c.place s.other) = some slot' →
      slot'.socket = StreamSocket.new) (s' : Side) :
    Lane (w'.seqs c s') ((w'.socketOf c (c.place s')).map fun slot => slot.socket.nextSendSeq)
      ((w'.socketOf c (c.place s'.other)).map fun slot => slot.socket.buf) := by
  refine lanes_of_socket hc hsock ?_ ?_ s'
  · rw [hseqs, Option.map_some, hnew]
    cases ho : w.socketOf c (c.place s.other) with
    | none => exact Lane.none_under.no_receiver
    | some slot' =>
      rw [Option.map_some, hother slot' ho]
      exact Lane.none_under
  · rw [hseqs, Option.map_some, hnew]
    cases ho : w.socketOf c (c.place s.other) with
    | none => exact Lane.none_under.no_sender
    | some slot' =>
      rw [Option.map_some, hother slot' ho]
      exact Lane.none_under

/-- A stream is only refused where a socket is. -/
theorem newStream_of_none (hs : w.sockets.get? p = none) (c : Conn) (s : Side) :
    ∃ w', w.newStream p c s = .ok w' ∧ w'.net = w.net ∧ w'.binds = w.binds ∧ w'.hosts = w.hosts
      ∧ w'.connecting = w.connecting ∧ w'.readers = w.readers ∧ w'.writers = w.writers
      ∧ w'.next = w.next + 1
      ∧ w'.sockets = w.sockets.insert p ⟨StreamSocket.new, w.next, c, s⟩ := by
  unfold newStream
  rw [if_neg]
  · exact ⟨_, rfl, rfl, rfl, rfl, rfl, rfl, rfl, rfl, rfl⟩
  · rw [IndexMap.contains, hs]
    exact Bool.false_ne_true

theorem Acts.newStream (w : World) (hp : p = c.place s) (h : w.newStream p c s = .ok w') :
    Acts (some c) w w' := by
  unfold World.newStream at h
  split at h
  · cases h
  · cases h
    have hinsert : Acts (some c) w
        { w with sockets := w.sockets.insert p ⟨StreamSocket.new, w.next, c, s⟩ } :=
      Acts.insert w hp rfl rfl
    exact { hinsert with next := Nat.le_succ _ }

/-- A SYN is taken off its queue. -/
theorem Acts.dequeue {k : IpAddr × UInt16} {b : ServerSocket} (hb : w.binds.get? k = some b)
    {origin : SocketAddr} {rest : List (Conn × SocketAddr)} (hq : b.deque = (c, origin) :: rest) :
    Acts (some c) w { w with binds := w.binds.insert k ⟨b.bindAddr, rest⟩ } := by
  refine { Acts.refl (some c) w with
    binds := fun k' b' hb' => ?_, deques := fun c' hne => ?_ }
  · rw [IndexMap.get?_insert] at hb'
    split at hb'
    · rename_i hk
      cases hb'
      subst hk
      refine ⟨Or.inr ⟨b, hb, rfl⟩, fun x hx => Or.inl ⟨b, hb, rfl, ?_⟩⟩
      rw [hq]
      exact List.mem_cons_of_mem _ hx
    · exact ⟨Or.inr ⟨b', hb', rfl⟩, fun x hx => Or.inl ⟨b', hb', rfl, hx⟩⟩
  · rw [waitingOf_insert]
    split
    · rename_i hk
      rw [waitingOf, hk, hb]
      dsimp only
      rw [hq, List.countP_cons]
      exact Nat.le_add_right _ _
    · exact Nat.le_refl _

theorem ackSyn_cases (h : w.ackSyn c = some w') :
    Acts (some c) w w' ∧ w'.sockets = w.sockets ∧ w'.net = w.net ∧ w'.binds = w.binds
      ∧ w'.readers = w.readers ∧ w'.writers = w.writers ∧ w'.next = w.next := by
  unfold ackSyn at h
  dsimp only at h
  split at h
  · cases h
    refine ⟨{ Acts.refl (some c) w with connecting := fun x hx => ?_ }, rfl, rfl, rfl, rfl, rfl, rfl⟩
    obtain ⟨y, hy, rfl⟩ := List.mem_map.mp hx
    refine Or.inl ⟨y, hy, ?_⟩
    split
    · rename_i hc
      exact ⟨rfl, rfl, fun _ => Or.inr (by rw [← hc])⟩
    · exact ⟨rfl, rfl, Or.inl⟩
  · cases h

/-- **Accepting**: the connection has no socket here yet, and one at its client. -/
theorem accept_of_head (hw : w.Inv) {h : IpAddr} {port : UInt16} {sock : ServerSocket}
    (hb : w.binds.get? (h, port) = some sock) {origin : SocketAddr}
    {rest : List (Conn × SocketAddr)} (hq : sock.deque = (c, origin) :: rest) :
    Fine (Turn (some c) w) (w.accept h port) := by
  have hx : (c, origin) ∈ sock.deque := by
    rw [hq]
    exact List.mem_cons_self
  have hc : c ∈ w.conns := mem_conns.mpr (Or.inr (Or.inl ⟨(h, port), sock, origin, hb, hx⟩))
  have hsound := (hw.sited.sound c hc).1
  have hg := hw.good c
  obtain ⟨hport, hplaces⟩ := hw.sited.waiting h port sock hb
  have hplace : (h, ⟨myAddr h sock.bindAddr origin, origin⟩) = c.place .server :=
    hplaces (c, origin) hx
  obtain ⟨hh, hpair⟩ := Prod.mk.inj hplace
  have hmy : myAddr h sock.bindAddr origin = c.pair.rem := congrArg SocketPair.loc hpair
  have horigin : origin = c.pair.loc := congrArg SocketPair.rem hpair
  have hkey : (c.server, c.pair.rem.port) = (h, port) := by
    refine Prod.ext hh.symm ?_
    rw [← hmy]
    exact hport
  -- it was the only SYN of its connection
  have hacts := Acts.dequeue hb hq
  have hcount : w.waitingOf c = ({ w with binds := w.binds.insert (h, port) ⟨sock.bindAddr, rest⟩ } :
      World).waitingOf c + 1 := by
    rw [waitingOf_insert, if_pos hkey, waitingOf, hkey, hb]
    dsimp only
    rw [hq, List.countP_cons, if_pos (decide_eq_true rfl)]
  have hpos : 0 < w.synsOf c := by
    rw [synsOf, hcount]
    omega
  have hsyns : ({ w with binds := w.binds.insert (h, port) ⟨sock.bindAddr, rest⟩ } :
      World).synsOf c = 0 := by
    have := hg.once
    rw [synsOf, hcount] at this
    rw [synsOf]
    dsimp only
    omega
  obtain ⟨⟨client, hclient, hfresh⟩, hserver, hnet, -, -⟩ := hg.first hpos
  have hmay : ∀ {w' : World} c', some c = some c' → w.MayAct w' c' := by
    rintro w' c' ⟨⟩
    exact Or.inl hc
  unfold accept
  rw [hb]
  dsimp only
  rw [hq]
  dsimp only
  split
  · -- the connect is gone
    refine ⟨hacts, hmay, ?_⟩
    rintro c' ⟨⟩
    refine Good.of_lanes hsyns ?_
    exact hg.lanes
  · rename_i w2 hack
    obtain ⟨hacts2, hsockets2, hnet2, hbinds2, -, -, -⟩ := ackSyn_cases hack
    have ho := hw.sited.owns hc .server
    have hnone : w2.sockets.get? (c.place .server) = none := by
      rw [hsockets2]
      by_contra hne
      obtain ⟨slot, hs⟩ := Option.ne_none_iff_exists'.mp hne
      rw [socketOf_of_owns ho hs] at hserver
      cases hserver
    obtain ⟨w3, h3, hnet3, hbinds3, -, -, -, -, -, hsockets3⟩ := newStream_of_none hnone c .server
    have hacts3 := (hacts.trans hacts2).trans (Acts.newStream w2 rfl h3)
    -- the client's socket is there
    have hip : (if origin.ip.isLoopback then h else origin.ip) = c.client := by
      rw [horigin]
      rcases Conn.sound_cases hsound with ⟨hl, -, hs⟩ | ⟨hl, h1, -, -⟩
      · rw [if_pos hl, ← hs]
        exact hh
      · rw [if_neg (by rw [hl]; exact Bool.false_ne_true)]
        exact h1
    have hne : c.place .client ≠ c.place .server := by
      intro heq
      cases Conn.place_injective hsound heq
    have hslot : w3.sockets.get? (c.place .client) = some client := by
      rw [hsockets3, IndexMap.get?_insert, if_neg hne, hsockets2]
      exact (Option.filter_eq_some_iff.mp hclient).1
    have hcp : (c.client, (⟨origin, myAddr h sock.bindAddr origin⟩ : SocketPair))
        = c.place .client := by
      rw [hmy, horigin]
      rfl
    rw [hplace, h3, hip]
    show Fine _ (if _ then _ else _)
    split
    · rfl
    · rw [hcp, hslot]
      refine ⟨hacts3.trans (Acts.openHalves w3 rfl), hmay, ?_⟩
      rintro c' ⟨⟩
      have hsyns3 : w3.synsOf c = 0 := by
        rw [← hsyns, synsOf, synsOf, waitingOf, waitingOf, hnet3, hbinds3, hnet2, hbinds2]
      have hsock : ∀ p, w3.socketOf c p = if p = c.place .server then
          some ⟨StreamSocket.new, w2.next, c, .server⟩ else w.socketOf c p := by
        intro p
        rw [socketOf, hsockets3, hsockets2]
        exact socketOf_insert w rfl p
      have hseqs : ∀ s, w3.seqs c s = [] := by
        refine seqs_of_syns fun e he hec => hnet e ?_ hec
        rwa [hnet3, hnet2] at he
      refine Good.of_lanes hsyns3 (lanes_of_new hsound hseqs hsock rfl fun slot' hs => ?_)
      cases hclient.symm.trans hs
      exact hfresh

theorem accept_fine (hw : w.Inv) (h : IpAddr) (port : UInt16) :
    Fine (Turn (w.actor (.accept h port)) w) (w.accept h port) := by
  cases hb : w.binds.get? (h, port) with
  | none =>
    rw [actor, hb, accept, hb]
    exact Turn.of_none (Acts.refl _ w)
  | some sock =>
    cases hq : sock.deque with
    | nil =>
      rw [actor, hb, Option.bind_some, hq, accept, hb]
      dsimp only
      rw [hq]
      exact Turn.of_none (Acts.refl _ w)
    | cons x rest =>
      rw [actor, hb, Option.bind_some, hq]
      exact accept_of_head hw hb hq

theorem assignEphemeralPort_cases (w : World) (h : IpAddr) (ports : Ports) :
    w.assignEphemeralPort h ports = .error .portsExhausted ∨
      ∃ hosts port, w.assignEphemeralPort h ports = .ok ({ w with hosts := hosts }, port) := by
  unfold assignEphemeralPort
  split
  · exact Or.inl rfl
  · exact Or.inr ⟨_, _, rfl⟩

theorem dial_cases (w : World) (h : IpAddr) (dst : SocketAddr) (ports : Ports) :
    w.dial h dst ports = .error .portsExhausted ∨
      ∃ hosts pair, w.dial h dst ports = .ok ({ w with hosts := hosts }, pair) := by
  rcases assignEphemeralPort_cases w h ports with herr | ⟨hosts, port, hok⟩
  · exact Or.inl (by rw [dial, herr]; rfl)
  · exact Or.inr ⟨hosts, _, by rw [dial, hok]; rfl⟩

theorem quiet_spec (hw : w.Sited) (hq : w.quiet c = true) :
    c.sound = true ∧ c ∉ w.conns ∧ ∀ s, w.sockets.get? (c.place s) = none := by
  rw [quiet, Bool.and_eq_true, List.all_eq_true] at hq
  obtain ⟨hsound, hall⟩ := hq
  have hno : ∀ c' ∈ w.conns, c.meets c' ≠ true := by
    intro c' hc' hm
    have := hall c' hc'
    rw [hm] at this
    cases this
  refine ⟨hsound, fun hc => hno c hc (Conn.meets_of_place (s := .client) rfl), fun s => ?_⟩
  by_contra hne
  obtain ⟨slot, hs⟩ := Option.ne_none_iff_exists'.mp hne
  exact hno _ (hw.conn_of_slot hs) (Conn.meets_of_place (hw.slot _ slot hs))

/-- **A connection is opened** where nothing is in its way. -/
theorem connect_of_dial (hw : w.Inv) {h : IpAddr} {dst : SocketAddr} {ports : Ports}
    (hports : w.hosts.get? h = some ports) {hosts : IndexMap IpAddr Ports} {pair : SocketPair}
    (hdial : w.dial h dst ports = .ok ({ w with hosts := hosts }, pair))
    (hq : w.quiet (w.opening h pair) = true) :
    Fine (Turn (some (w.opening h pair)) w) (w.connect h dst) := by
  generalize hc : w.opening h pair = c at hq
  obtain ⟨hsound, hmem, hfree⟩ := quiet_spec hw.sited hq
  obtain ⟨hsock0, hnet0, hwaiting0, hconnecting0, hreaders0, hwriters0⟩ := nothing_of_not_mem hmem
  have hplace : (h, pair) = c.place .client := by
    rw [← hc]
    rfl
  have hopening : ({ w with hosts := hosts } : World).opening h pair = c := hc
  have hid : c.id = w.next := by
    rw [← hc]
    rfl
  obtain ⟨w2, h2, hnet2, hbinds2, -, hconnecting2, hreaders2, hwriters2, hnext2, hsockets2⟩ :=
    @newStream_of_none { w with hosts := hosts } (c.place .client) (hfree .client) c .client
  have hacts2 : Acts (some c) w w2 :=
    (Acts.free _ w hosts w.channels w.credits).trans (Acts.newStream _ rfl h2)
  have hsock2 : ∀ p, w2.socketOf c p = if p = c.place .client then
      some ⟨StreamSocket.new, w.next, c, .client⟩ else w.socketOf c p := by
    intro p
    rw [socketOf, hsockets2]
    exact socketOf_insert w rfl p
  have hnil : ∀ slot', w.socketOf c (c.place Side.client.other) = some slot' →
      slot'.socket = StreamSocket.new := by
    intro slot' hs
    rw [hsock0] at hs
    cases hs
  have hmay : ∀ {w' : World}, w2.next ≤ w'.next → ∀ c', some c = some c' → w.MayAct w' c' := by
    rintro w' hle c' ⟨⟩
    refine Or.inr ⟨hq, ?_⟩
    rw [hnext2] at hle
    rw [hid]
    exact hle
  unfold connect
  rw [hports]
  dsimp only
  rw [hdial]
  show Fine _ (World.newStream _ _ _ _ >>= _)
  rw [hopening, hplace, h2]
  dsimp only [Bind.bind, Except.bind]
  split
  · -- no link: the stream is given up, its socket stays
    refine ⟨hacts2.trans (Acts.free _ w2 w2.hosts _ w2.credits), hmay (Nat.le_refl _), ?_⟩
    rintro c' ⟨⟩
    refine Good.of_lanes ?_ (lanes_of_new hsound (fun s => ?_) hsock2 rfl hnil)
    · show w2.synsOf c = 0
      rw [synsOf, waitingOf, hnet2, hbinds2, hnet0]
      exact (Nat.zero_add _).trans hwaiting0
    · show w2.seqs c s = []
      rw [seqs, hnet2, hnet0]
      rfl
  · rename_i w3 hsend
    obtain ⟨e, rfl, hec, hes, heseg, hsited⟩ := sendFrom_cases rfl hsound (fun _ => rfl) hsend
    have hacts : Acts (some c) w { w2 with net := w2.net ++ [e], connecting :=
        w2.connecting ++ [⟨c.place .client, w.next, false, c⟩] } := by
      refine (hacts2.trans (Acts.push w2 hec hsited)).trans { Acts.refl _ _ with
        connecting := fun x hx => ?_ }
      rcases List.mem_append.mp hx with hx | hx
      · exact Or.inl ⟨x, hx, rfl, rfl, Or.inl⟩
      · rw [List.mem_singleton] at hx
        subst hx
        exact Or.inr ⟨rfl, rfl⟩
    refine ⟨hacts, hmay (Nat.le_refl _), ?_⟩
    rintro c' ⟨⟩
    have hfilter : ((w2.net ++ [e]).filter fun e => e.conn = c) = [e] := by
      rw [List.filter_append, hnet2]
      dsimp only
      rw [hnet0, List.filter_cons_of_pos (by simpa using hec)]
      rfl
    have hsyns : ({ w2 with net := w2.net ++ [e], connecting :=
        w2.connecting ++ [⟨c.place .client, w.next, false, c⟩] } : World).synsOf c = 1 := by
      rw [synsOf]
      dsimp only
      rw [hfilter, waitingOf]
      dsimp only
      rw [hbinds2]
      show _ + w.waitingOf c = 1
      rw [hwaiting0, List.countP_cons, if_pos (decide_eq_true heseg)]
      rfl
    have hall : ∀ x ∈ w2.net ++ [e], x.conn = c → x.segment = .syn := by
      intro x hx hxc
      have hx : x ∈ (w2.net ++ [e]).filter fun e => e.conn = c :=
        List.mem_filter.mpr ⟨hx, decide_eq_true hxc⟩
      rw [hfilter, List.mem_singleton] at hx
      rw [hx]
      exact heseg
    refine ⟨Nat.le_of_eq hsyns, fun _ => ⟨⟨⟨StreamSocket.new, w.next, c, .client⟩, ?_, rfl⟩, ?_, hall,
      fun r hr => ?_, fun r hr => ?_⟩, fun x hx hxc hack => ?_, lanes_of_new hsound
      (seqs_of_syns hall) hsock2 rfl hnil⟩
    · exact (hsock2 _).trans (if_pos rfl)
    · refine (hsock2 _).trans ((if_neg fun heq => ?_).trans (hsock0 _))
      cases Conn.place_injective hsound heq
    · exact hreaders0 r (by rwa [← hreaders2] )
    · exact hwriters0 r (by rwa [← hwriters2])
    · rcases List.mem_append.mp hx with hx | hx
      · rw [hconnecting2] at hx
        exact absurd hxc (hconnecting0 x hx)
      · rw [List.mem_singleton] at hx
        rw [hx] at hack
        cases hack

theorem connect_fine (hw : w.Inv) {h : IpAddr} {dst : SocketAddr}
    (hq : w.quietStep (.connect h dst) = true) :
    Fine (Turn (w.actor (.connect h dst)) w) (w.connect h dst) := by
  cases hports : w.hosts.get? h with
  | none =>
    rw [actor, hports, connect, hports]
    exact Turn.of_none (Acts.refl _ w)
  | some ports =>
    rcases dial_cases w h dst ports with hdial | ⟨hosts, pair, hdial⟩
    · rw [connect, hports]
      dsimp only
      rw [hdial]
      rfl
    · rw [quietStep, hports] at hq
      dsimp only at hq
      rw [hdial] at hq
      rw [actor, hports, Option.bind_some, hdial]
      exact connect_of_dial hw hports hdial hq

/-- A turn that changes nothing. -/
theorem Turn.refl (hw : w.Inv) (hc : c ∈ w.conns) : Turn (some c) w w where
  acts := Acts.refl _ w
  may := by
    rintro c' ⟨⟩
    exact Or.inl hc
  good c' _ := hw.good c'

theorem Acts.eraseConnecting (a : Option Conn) (w : World) (i : Nat) :
    Acts a w { w with connecting := w.connecting.eraseIdx i } :=
  { Acts.refl a w with
    connecting := fun x hx => Or.inl ⟨x, List.mem_of_mem_eraseIdx hx, rfl, rfl, Or.inl⟩ }

theorem Inv.connecting_mem {i : Nat} {x : Connecting} (hx : w.connecting[i]? = some x) :
    x.conn ∈ w.conns :=
  mem_conns.mpr (Or.inr (Or.inr (Or.inr (Or.inl ⟨x, List.mem_of_getElem? hx, rfl⟩))))

theorem connected_turn (hw : w.Inv) (i : Nat) : Turn (w.actor (.connected i)) w (w.connected i) := by
  cases hx : w.connecting[i]? with
  | none =>
    rw [actor, hx, connected, hx]
    exact Turn.of_none (Acts.refl _ w)
  | some x =>
    have hc := Inv.connecting_mem hx
    have hmem := List.mem_of_getElem? hx
    rw [actor, hx, connected, hx]
    dsimp only [Option.map_some]
    split
    · rename_i hack
      refine Turn.of_plays hw hc ((hw.good x.conn).acked x hmem rfl hack) ?_
      exact Plays.of_eq ((Acts.eraseConnecting _ w i).trans
        (Acts.openHalves _ (hw.sited.connecting x hmem))) rfl rfl rfl
    · exact Turn.refl hw hc

theorem cancel_turn (hw : w.Inv) (i : Nat) : Turn (w.actor (.cancel i)) w (w.cancel i) := by
  cases hx : w.connecting[i]? with
  | none =>
    rw [actor, hx, cancel, hx]
    exact Turn.of_none (Acts.refl _ w)
  | some x =>
    have hc := Inv.connecting_mem hx
    rw [actor, hx, cancel, hx]
    refine ⟨(Acts.eraseConnecting _ w i).trans (Acts.free _ _ w.hosts _ w.credits), ?_, ?_⟩
    · rintro c' ⟨⟩
      exact Or.inl hc
    · rintro c' ⟨⟩
      exact (hw.good x.conn).same ⟨fun _ => rfl, List.Perm.refl _, Nat.le_refl _,
        fun y hy hyc hack => ⟨y, List.mem_of_mem_eraseIdx hy, hyc, hack⟩,
        fun r hr hrc => ⟨r, hr, hrc⟩, fun r hr hrc => ⟨r, hr, hrc⟩⟩

theorem lose_turn (hw : w.Inv) (i : Nat) : Turn (w.actor (.lose i)) w (w.lose i) := by
  cases he : w.net[i]? with
  | none =>
    rw [actor, he, lose, List.eraseIdx_of_length_le (List.getElem?_eq_none_iff.mp he)]
    exact Turn.of_none (Acts.refl _ w)
  | some e =>
    rw [actor, he]
    refine ⟨Acts.eraseNet he, ?_, ?_⟩
    · rintro c' ⟨⟩
      exact Or.inl (hw.sited.envelope_mem he).1
    · rintro c' ⟨⟩
      exact Good.lose he (hw.good e.conn)

/-- **The network delivers**: to the sockets of the connection the segment is from. -/
theorem deliver_fine (hw : w.Inv) (i : Nat) :
    Fine (Turn (w.actor (.deliver i)) w) (w.deliver i) := by
  cases he : w.net[i]? with
  | none =>
    rw [actor, he, deliver, he]
    exact Turn.of_none (Acts.refl _ w)
  | some e =>
    obtain ⟨hc, hsound, hsited⟩ := hw.sited.envelope_mem he
    have hg := hw.good e.conn
    have hmay : ∀ {w' : World} c', some e.conn = some c' → w.MayAct w' c' := by
      rintro w' c' ⟨⟩
      exact Or.inl hc
    have hlost : Turn (some e.conn) w { w with net := w.net.eraseIdx i } := by
      refine ⟨Acts.eraseNet he, hmay, ?_⟩
      rintro c' ⟨⟩
      exact Good.lose he hg
    -- a numbered segment, and the RST that may come back
    have hnumbered : ∀ q segment, seqOf e.segment = some q →
        ({ w with net := w.net.eraseIdx i } : World).receive e
          = ({ w with net := w.net.eraseIdx i } : World).buffer (e.host, ⟨e.dst, e.src⟩) q segment →
        Fine (Turn (some e.conn) w) (w.deliver i) := by
      intro q segment hq hreceive
      obtain ⟨w2, rst, hbuf, hacts, hsyns, hgood⟩ := buffer_spec hw.sited he hg hq segment
      rw [deliver, he]
      dsimp only
      rw [hreceive, hsited.1, hbuf]
      show Fine _ (if _ then _ else _)
      split
      · refine ⟨hacts, hmay, ?_⟩
        rintro c' ⟨⟩
        exact hgood
      · have hreply := reply_plays (w := w2) hsound hsited
        have hturn : ∀ {w3}, Plays e.conn w2 w3 → Turn (some e.conn) w w3 := by
          intro w3 hplays
          refine ⟨hacts.trans hplays.acts, hmay, ?_⟩
          rintro c' ⟨⟩
          exact (hplays.good hsyns hgood).2
        split at hreply
        · rename_i hsame
          rw [if_pos hsame]
          exact hturn hreply
        · rename_i hsame
          rw [if_neg hsame]
          exact hturn hreply
    rw [actor, he]
    cases hseg : e.segment with
    | syn =>
      rw [deliver, he]
      dsimp only
      rw [receive, hseg]
      dsimp only
      split
      · exact hlost
      · rename_i b hb
        split
        · rfl
        · split
          · rename_i hm
            obtain ⟨hacts, hgood⟩ := Good.queue hw.sited he hg hseg hb hm
            refine ⟨hacts, hmay, ?_⟩
            rintro c' ⟨⟩
            exact hgood
          · exact hlost
    | data q bytes => exact hnumbered q (.data bytes) (by rw [hseg]; rfl) (by rw [receive, hseg])
    | fin q => exact hnumbered q .fin (by rw [hseg]; rfl) (by rw [receive, hseg])
    | rst =>
      rw [deliver, he]
      dsimp only
      rw [receive, hseg]
      dsimp only
      rw [hsited.1]
      have hsyns := hg.synsOf_of_envelope (List.mem_of_getElem? he) rfl (by rw [hseg]; exact nofun)
      have hzero : ({ w with net := w.net.eraseIdx i } : World).synsOf e.conn = 0 := by
        have := synsOf_of_get he
        omega
      have hplays := Plays.reset hsound { w with net := w.net.eraseIdx i } e.side.other
      refine ⟨(Acts.eraseNet he).trans hplays.acts, hmay, ?_⟩
      rintro c' ⟨⟩
      exact (hplays.good hzero (Good.lose he hg)).2

/-! ## 10. Listeners -/

theorem bind_fine (h : IpAddr) (addr : SocketAddr) : Fine (Turn none w) (w.bind h addr) := by
  have hbound : ∀ hosts port, Fine (Turn none w) (do
      if ({ w with hosts := hosts } : World).binds.contains (h, port) then
        pure { w with hosts := hosts }
      else pure { w with
        hosts := hosts, binds := w.binds.insert (h, port) ⟨⟨addr.ip, port⟩, []⟩ }) := by
    intro hosts port
    split
    · exact Turn.of_none (Acts.free _ w hosts w.channels w.credits)
    · rename_i hno
      refine Turn.of_none { Acts.free none w hosts w.channels w.credits with
        binds := fun k b' hb' => ?_, deques := fun c _ => ?_ }
      · rw [IndexMap.get?_insert] at hb'
        split at hb'
        · rename_i hk
          cases hb'
          subst hk
          exact ⟨Or.inl rfl, fun x hx => by cases hx⟩
        · exact ⟨Or.inr ⟨b', hb', rfl⟩, fun x hx => Or.inl ⟨b', hb', rfl, hx⟩⟩
      · rw [waitingOf_insert { w with hosts := hosts }]
        split
        · exact Nat.zero_le _
        · exact Nat.le_refl _
  unfold bind
  split
  · exact Turn.of_none (Acts.refl _ w)
  · rename_i ports hports
    split
    · exact Turn.of_none (Acts.refl _ w)
    · split
      · rfl
      · split
        · rcases assignEphemeralPort_cases w h ports with herr | ⟨hosts, port, hok⟩
          · rw [herr]
            rfl
          · rw [hok]
            exact hbound hosts port
        · exact hbound w.hosts addr.port

theorem unbind_turn (h : IpAddr) (port : UInt16) : Turn none w (w.unbind h port) := by
  refine Turn.of_none { Acts.refl none w with binds := fun k b' hb' => ?_, deques := fun c _ => ?_ }
  · rw [unbind, IndexMap.get?_swapRemove] at hb'
    split at hb'
    · cases hb'
    · exact ⟨Or.inr ⟨b', hb', rfl⟩, fun x hx => Or.inl ⟨b', hb', rfl, hx⟩⟩
  · rw [waitingOf, waitingOf, unbind]
    dsimp only
    rw [IndexMap.get?_swapRemove]
    by_cases hk : (c.server, c.pair.rem.port) = (h, port)
    · rw [if_pos hk]
      exact Nat.zero_le _
    · rewrite [if_neg hk]
      exact Nat.le_refl _

/-! ## 11. Runs -/

/-- **Every step of a quiet run** acts for one connection, and fails no assertion. -/
theorem step_fine (hw : w.Inv) {op : Op} (hq : w.quietStep op = true) :
    Fine (Turn (w.actor op) w) (w.step op) := by
  have hwriter : ∀ {i : Nat} {w' : World}, (∀ half, w.writers[i]? = some half → Plays half.conn w w') →
      (w.writers[i]? = none → w' = w) → Turn (w.writers[i]?.map (·.conn)) w w' := by
    intro i w' hplays hnone
    cases hr : w.writers[i]? with
    | none =>
      rw [hnone hr]
      exact Turn.of_none (Acts.refl _ w)
    | some half =>
      have hmem := List.mem_of_getElem? hr
      exact Turn.of_plays hw (hw.sited.writer_mem hr).1
        ((hw.good half.conn).synsOf_of_writer hmem rfl) (hplays half hr)
  have hreader : ∀ {i : Nat} {w' : World}, (∀ half, w.readers[i]? = some half → Plays half.conn w w') →
      (w.readers[i]? = none → w' = w) → Turn (w.readers[i]?.map (·.conn)) w w' := by
    intro i w' hplays hnone
    cases hr : w.readers[i]? with
    | none =>
      rw [hnone hr]
      exact Turn.of_none (Acts.refl _ w)
    | some half =>
      have hmem := List.mem_of_getElem? hr
      exact Turn.of_plays hw (hw.sited.reader_mem hr).1
        ((hw.good half.conn).synsOf_of_reader hmem rfl) (hplays half hr)
  cases op with
  | bind h addr => exact bind_fine h addr
  | unbind h port => exact unbind_turn h port
  | setUdp h udp => exact Turn.of_none (Acts.free _ w _ w.channels w.credits)
  | accept h port => exact accept_fine hw h port
  | connect h dst => exact connect_fine hw hq
  | connected i => exact connected_turn hw i
  | cancel i => exact cancel_turn hw i
  | tryWrite i buf =>
    refine hwriter (fun half hr => tryWrite_plays hw.sited hr buf) fun hr => ?_
    rw [tryWrite, hr]
  | pollShutdown i =>
    refine hwriter (fun half hr => pollShutdown_plays hw.sited hr) fun hr => ?_
    rw [pollShutdown, hr]
  | dropWriteHalf i =>
    refine hwriter (fun half hr => dropWriteHalf_plays hw.sited hr) fun hr => ?_
    rw [dropWriteHalf, hr]
  | read i call =>
    refine hreader (fun half hr => read_plays half.conn i call) fun hr => ?_
    rw [read, hr]
  | dropReadHalf i =>
    refine hreader (fun half hr => dropReadHalf_plays hw.sited hr) fun hr => ?_
    rw [dropReadHalf, hr]
  | deliver i => exact deliver_fine hw i
  | lose i => exact lose_turn hw i

theorem new_inv (addrs : List IpAddr) (first last : UInt16) (capacity : Nat) :
    (World.new addrs first last capacity).Inv := by
  have hnil : (World.new addrs first last capacity).conns = [] := rfl
  refine ⟨⟨fun c hc => ?_, fun c hc => ?_, fun p slot hs => ?_, fun e he => ?_,
    fun h port b hb => ?_, fun x hx => ?_, fun r hr => ?_, fun r hr => ?_⟩, fun c => ?_⟩
  · rw [hnil] at hc
    cases hc
  · rw [hnil] at hc
    cases hc
  · cases hs
  · cases he
  · cases hb
  · cases hx
  · cases hr
  · cases hr
  · refine Good.of_lanes rfl fun s => ⟨List.nodup_nil, fun _ _ _ hq => ?_, fun _ hn => ?_,
      fun _ hn => ?_⟩
    · cases hq
    · cases hn
    · cases hn

/-- **A quiet run** keeps the invariant, and fails no assertion. -/
theorem run_fine : ∀ {ops : List Op} {w : World}, w.Inv → w.runQuiet ops = true →
    Fine Inv (w.run ops)
  | [], _, hw, _ => hw
  | op :: ops, w, hw, hq => by
    rw [runQuiet, Bool.and_eq_true] at hq
    have hstep := step_fine hw hq.1
    rw [run]
    cases hs : w.step op with
    | error p =>
      rw [hs] at hstep
      exact hstep
    | ok w1 =>
      rw [hs] at hstep hq
      exact run_fine (Turn.inv hw hstep) hq.2

theorem runQuiet_append {ops ops' : List Op} : ∀ {w w' : World}, w.run ops = .ok w' →
    w.runQuiet (ops ++ ops') = (w.runQuiet ops && w'.runQuiet ops') := by
  induction ops with
  | nil =>
    intro w w' hrun
    cases hrun
    rfl
  | cons op ops ih =>
    intro w w' hrun
    rw [run] at hrun
    rw [List.cons_append, runQuiet, runQuiet]
    cases hs : w.step op with
    | error e =>
      rw [hs] at hrun
      cases hrun
    | ok w1 =>
      rw [hs] at hrun
      dsimp only
      rw [ih hrun, Bool.and_assoc]

/-- **Incarnations are isolated** in every run whose connections open quietly: every step changes
the sockets of the connection it acts for and of no other, and none of the assertions fails. -/
theorem incarnations_isolated (addrs : List IpAddr) (first last : UInt16) (capacity : Nat)
    (ops : List Op) (hq : (World.new addrs first last capacity).runQuiet ops = true) :
    (World.new addrs first last capacity).run ops ≠ .error .alreadyConnected ∧
    (World.new addrs first last capacity).run ops ≠ .error .duplicateSegment ∧
    (World.new addrs first last capacity).run ops ≠ .error .missingStreamSocket ∧
    ∀ before op after, ops = before ++ op :: after → ∀ w w',
      (World.new addrs first last capacity).run before = .ok w → w.step op = .ok w' →
      w.Isolated op w' := by
  have hinit := new_inv addrs first last capacity
  have hrun := run_fine hinit hq
  refine ⟨fun h => ?_, fun h => ?_, fun h => ?_, fun before op after hops w w' hbefore hstep => ?_⟩
  · rw [h] at hrun
    cases hrun
  · rw [h] at hrun
    cases hrun
  · rw [h] at hrun
    cases hrun
  · subst hops
    rw [runQuiet_append hbefore, Bool.and_eq_true, runQuiet, Bool.and_eq_true] at hq
    have hw := run_fine hinit hq.1
    rw [hbefore] at hw
    have hturn := step_fine hw hq.2.1
    rw [hstep] at hturn
    intro c hc p
    exact hturn.acts.socketOf hw.sited hturn.may hc p

/-- A client writes to a server. -/
def helloOps : List Op :=
  [.bind (.v4 0xC0A80002) ⟨.v4 0, 80⟩, .connect (.v4 0xC0A80001) ⟨.v4 0xC0A80002, 80⟩, .deliver 0,
    .accept (.v4 0xC0A80002) 80, .connected 0, .tryWrite 1 [7], .deliver 0]

theorem incarnations_isolated_hello :
    (World.new [.v4 0xC0A80001, .v4 0xC0A80002] 49152 49152 4).runQuiet helloOps = true ∧
    (World.new [.v4 0xC0A80001, .v4 0xC0A80002] 49152 49152 4).run helloOps
      ≠ .error .duplicateSegment := by
  have hq : (World.new [.v4 0xC0A80001, .v4 0xC0A80002] 49152 49152 4).runQuiet helloOps = true := by
    decide +kernel
  exact ⟨hq, (incarnations_isolated _ _ _ _ _ hq).2.1⟩

/-- The server resets the connection of `helloOps`; the client keeps its halves, and connects again
from its only port. -/
def staleOps : List Op :=
  helloOps ++ [.dropReadHalf 0, .deliver 0, .connect (.v4 0xC0A80001) ⟨.v4 0xC0A80002, 80⟩,
    .deliver 0, .accept (.v4 0xC0A80002) 80, .connected 0]

/-- **The old half counts the new socket down**, and takes a number from it for its FIN. -/
theorem stale_half_touches_new_socket :
    ¬ ∀ addrs first last capacity before op w w',
      (World.new addrs first last capacity).run before = .ok w → w.step op = .ok w' →
      w.Isolated op w' := by
  intro hall
  have hrun : ((World.new [.v4 0xC0A80001, .v4 0xC0A80002] 49152 49152 4).run staleOps).toOption.map
      (fun w => ((w.actor (.dropWriteHalf 1)).map (·.id),
        (w.socketOf ⟨2, .v4 0xC0A80001, ⟨⟨.v4 0xC0A80001, 49152⟩, ⟨.v4 0xC0A80002, 80⟩⟩,
          .v4 0xC0A80002⟩ (.v4 0xC0A80001, ⟨⟨.v4 0xC0A80001, 49152⟩, ⟨.v4 0xC0A80002, 80⟩⟩)).map
          (·.socket.refCt),
        ((w.dropWriteHalf 1).socketOf ⟨2, .v4 0xC0A80001, ⟨⟨.v4 0xC0A80001, 49152⟩,
          ⟨.v4 0xC0A80002, 80⟩⟩, .v4 0xC0A80002⟩ (.v4 0xC0A80001, ⟨⟨.v4 0xC0A80001, 49152⟩,
          ⟨.v4 0xC0A80002, 80⟩⟩)).map (·.socket.refCt))) = some (some 0, some 2, some 1) := by
    decide +kernel
  obtain ⟨w, hw, hend⟩ := Option.map_eq_some_iff.mp hrun
  obtain ⟨hactor, hend⟩ := Prod.mk.inj hend
  obtain ⟨hbefore, hafter⟩ := Prod.mk.inj hend
  have hiso := hall _ _ _ _ staleOps (.dropWriteHalf 1) w _ (Turmoil.Net.toOption_eq_some.mp hw) rfl
  rw [hiso, hbefore] at hafter
  · cases hafter
  · intro h
    rw [h] at hactor
    cases hactor

end World

end Turmoil.Stream
