/-
# Ephemeral ports

Two allocators hand out the ports of a range `first..=last` in turn.  `PortAllocator::allocate`
goes round the range until its cursor is back where it started; `Host::assign_ephemeral_port` takes
as many steps as the range has ports.  Both skip the ports in use, and both come to every port of
the range once, wherever they start: so each finds the first free port in cyclic order, and gives
up only if none is free (`ephemeralPorts_complete`).  The cursor stays in the range, and is never
counted past it: where it stands at `last`, it goes back to `first`.
-/
import Turmoil.Lib.Cycle
import Turmoil.Net.Socket
import Turmoil.Stream.Hosts
import Mathlib.Logic.Function.Iterate

namespace Turmoil.Stream

open Turmoil.Cycle
open Turmoil.Net (IpAddr PortAllocator)

variable {first last cursor p : UInt16} {inUse : UInt16 → Bool}

/-! ## 1. The circle of ports -/

/-- The port both allocators try after `p`. -/
def portAfter (first last p : UInt16) : UInt16 := if p = last then first else p + 1

def InRange (first last p : UInt16) : Prop := first ≤ p ∧ p ≤ last

/-- The first port in cyclic order from `cursor` that is not in use. -/
def FirstFree (first last cursor : UInt16) (inUse : UInt16 → Bool) (p : UInt16) : Prop :=
  First first.toNat last.toNat cursor.toNat UInt16.toNat (fun p => inUse p = true) p

/-- However far the cursor has gone, a port it counts up from has a successor. -/
def NoOverflow (first last cursor : UInt16) : Prop :=
  ∀ k, (portAfter first last)^[k] cursor = last ∨
    ((portAfter first last)^[k] cursor).toNat + 1 < UInt16.size

theorem inRange_iff : InRange first last p ↔ On first.toNat last.toNat UInt16.toNat p := by
  rw [InRange, UInt16.le_iff_toNat_le, UInt16.le_iff_toNat_le, On]

/-- A port below another one is not the largest number. -/
theorem InRange.succ_lt (h : InRange first last p) (hne : p ≠ last) :
    p.toNat + 1 < UInt16.size := by
  have hle : p.toNat ≤ last.toNat := UInt16.le_iff_toNat_le.mp h.2
  have hlast : last.toNat < UInt16.size := last.toNat_lt
  have hne' : p.toNat ≠ last.toNat := fun heq => hne (UInt16.toNat_inj.mp heq)
  omega

theorem InRange.toNat_portAfter (h : InRange first last p) :
    (portAfter first last p).toNat = next first.toNat last.toNat p.toNat := by
  unfold portAfter next
  by_cases hp : p = last
  · simp [hp]
  · have hlt := h.succ_lt hp
    have hne : p.toNat ≠ last.toNat := fun heq => hp (UInt16.toNat_inj.mp heq)
    rw [if_neg hp, if_neg hne, UInt16.toNat_add, UInt16.toNat_one]
    exact Nat.mod_eq_of_lt hlt

theorem InRange.portAfter (h : InRange first last p) :
    InRange first last (portAfter first last p) := by
  have hon := inRange_iff.mp h
  rw [inRange_iff, On, h.toNat_portAfter]
  exact ⟨le_next hon.1, next_le hon.1 hon.2⟩

theorem InRange.iterate (h : InRange first last cursor) (k : Nat) :
    InRange first last ((Stream.portAfter first last)^[k] cursor) := by
  induction k with
  | zero => exact h
  | succ k ih =>
    rw [Function.iterate_succ_apply']
    exact ih.portAfter

theorem InRange.noOverflow (h : InRange first last cursor) : NoOverflow first last cursor := by
  intro k
  by_cases hend : (Stream.portAfter first last)^[k] cursor = last
  · exact .inl hend
  · exact .inr ((h.iterate k).succ_lt hend)

/-! ## 2. One turn of a search -/

/-- The ports from `start` up to `p`, which is left out, are in use. -/
def Skipped (first last start : UInt16) (inUse : UInt16 → Bool) (p : UInt16) : Prop :=
  Passed first.toNat last.toNat start.toNat UInt16.toNat (fun p => inUse p = true)
    (turns first.toNat last.toNat start.toNat p.toNat)

variable {start : UInt16}

theorem skipped_start : Skipped first last start inUse start := by
  rw [Skipped, turns_self]
  exact passed_zero

theorem Skipped.firstFree (h : Skipped first last start inUse p) (hp : InRange first last p)
    (hfree : inUse p = false) : FirstFree first last start inUse p :=
  Passed.first h (inRange_iff.mp hp) (by simp [hfree])

/-- A port in use is skipped as well.  Then the next one has its turn, or the round is over. -/
theorem Skipped.turn (h : Skipped first last start inUse p) (hs : InRange first last start)
    (hp : InRange first last p) (hused : inUse p = true) :
    if portAfter first last p = start then ∀ q, InRange first last q → inUse q = true
    else Skipped first last start inUse (portAfter first last p)
      ∧ turns first.toNat last.toNat start.toNat (portAfter first last p).toNat
          = turns first.toNat last.toNat start.toNat p.toNat + 1 := by
  have hon := inRange_iff.mp hp
  have hstart := inRange_iff.mp hs
  have hpassed := Passed.succ (fun a b => UInt16.toNat_inj.mp) hstart.2 h hon hused
  by_cases hend : portAfter first last p = start
  · rw [if_pos hend]
    have hround : next first.toNat last.toNat p.toNat = start.toNat := by
      rw [← hp.toNat_portAfter, hend]
    rw [(next_eq_iff hstart.1 hstart.2 hon.1 hon.2).mp hround] at hpassed
    exact fun q hq => hpassed.all hstart.1 q (inRange_iff.mp hq)
  · rw [if_neg hend]
    have hne : next first.toNat last.toNat p.toNat ≠ start.toNat := by
      rw [← hp.toNat_portAfter]
      exact fun heq => hend (UInt16.toNat_inj.mp heq)
    have hturn := turns_next hstart.1 hstart.2 hon.1 hne
    rw [← hp.toNat_portAfter] at hturn
    refine ⟨?_, hturn⟩
    rw [Skipped, hturn]
    exact hpassed

/-- What a search makes of the ports in use. -/
structure Found (first last start : UInt16) (inUse : UInt16 → Bool) (r : Option UInt16) :
    Prop where
  some : ∀ p, r = some p → FirstFree first last start inUse p
  none : r = none → ∀ p, InRange first last p → inUse p = true

/-- The search finds the first free port exactly, and nothing exactly if no port is free. -/
theorem Found.iff {r : Option UInt16} (h : Found first last start inUse r)
    (hs : InRange first last start) :
    (∀ p, r = .some p ↔ FirstFree first last start inUse p) ∧
      (r = .none ↔ ∀ p, InRange first last p → inUse p = true) := by
  have hfree : ∀ p, FirstFree first last start inUse p →
      ¬ ∀ q, InRange first last q → inUse q = true :=
    fun p hp hall => hp.free (hall p (inRange_iff.mpr hp.on))
  constructor
  · intro p
    refine ⟨h.some p, fun hp => ?_⟩
    cases hr : r with
    | none => exact absurd (h.none hr) (hfree p hp)
    | some q =>
      have hq := h.some q hr
      rw [First.unique (fun a b => UInt16.toNat_inj.mp) (inRange_iff.mp hs).2 hq hp]
  · refine ⟨h.none, fun hall => ?_⟩
    cases hr : r with
    | none => rfl
    | some q => exact absurd hall (hfree q (h.some q hr))

/-! ## 3. `PortAllocator` -/

theorem scan_found (hs : InRange first last start) :
    ∀ (fuel : Nat) (a : PortAllocator), a.lo = first → a.hi = last →
      InRange first last a.cursor → Skipped first last start inUse a.cursor →
      last.toNat + 1 - first.toNat
        ≤ turns first.toNat last.toNat start.toNat a.cursor.toNat + fuel →
      ∃ a' r, PortAllocator.scan inUse start fuel a = .ok (a', r) ∧ a'.lo = first ∧ a'.hi = last
        ∧ InRange first last a'.cursor ∧ Found first last start inUse r
  | 0, a, _, _, hc, _, hfuel => by
    have hon := inRange_iff.mp hc
    have hlt := turns_lt (inRange_iff.mp hs).1 hon.1 hon.2
    omega
  | fuel + 1, a, hlo, hhi, hc, hsk, hfuel => by
    have hcursor : a.advance.cursor = portAfter first last a.cursor := by
      rw [← hlo, ← hhi]
      rfl
    rw [PortAllocator.scan]
    by_cases hfree : inUse a.cursor = false
    · refine ⟨a.advance, some a.cursor, by simp [hfree], hlo, hhi, ?_, ?_, nofun⟩
      · rw [hcursor]
        exact hc.portAfter
      · rintro _ ⟨⟩
        exact hsk.firstFree hc hfree
    · have hused : inUse a.cursor = true := by simpa using hfree
      have hturn := hsk.turn hs hc hused
      by_cases hend : portAfter first last a.cursor = start
      · rw [if_pos hend] at hturn
        refine ⟨a.advance, none, by simp [hused, hcursor, hend], hlo, hhi, ?_, nofun,
          fun _ => hturn⟩
        rw [hcursor]
        exact hc.portAfter
      · rw [if_neg hend] at hturn
        have hnext : InRange first last a.advance.cursor := by
          rw [hcursor]
          exact hc.portAfter
        have hskip : Skipped first last start inUse a.advance.cursor := by
          rw [hcursor]
          exact hturn.1
        have hleft : last.toNat + 1 - first.toNat
            ≤ turns first.toNat last.toNat start.toNat a.advance.cursor.toNat + fuel := by
          rw [hcursor, hturn.2]
          omega
        obtain ⟨a', r, hscan, hrest⟩ := scan_found hs fuel a.advance hlo hhi hnext hskip hleft
        exact ⟨a', r, by simp [hused, hcursor, hend, hscan], hrest⟩

theorem allocate_found {a : PortAllocator} (inUse : UInt16 → Bool) (hs : InRange a.lo a.hi a.cursor) :
    ∃ a' r, a.allocate inUse = .ok (a', r) ∧ a'.lo = a.lo ∧ a'.hi = a.hi
      ∧ InRange a.lo a.hi a'.cursor ∧ Found a.lo a.hi a.cursor inUse r := by
  apply scan_found hs (2 ^ 16) a rfl rfl hs skipped_start
  have hlast : a.hi.toNat < 2 ^ 16 := a.hi.toNat_lt
  omega

/-! ## 4. `Host::assign_ephemeral_port` -/

theorem assignLoop_found (inUse : UInt16 → Bool) (hs : InRange first last start) :
    ∀ (fuel : Nat) (port : UInt16), InRange first last port →
      Skipped first last start inUse port →
      last.toNat + 1 - first.toNat = turns first.toNat last.toNat start.toNat port.toNat + fuel →
      Found first last start inUse ((World.assignLoop inUse first last fuel port).map Prod.fst)
        ∧ ∀ q next, World.assignLoop inUse first last fuel port = some (q, next) →
          InRange first last next
  | 0, port, hp, _, hfuel => by
    have hon := inRange_iff.mp hp
    have hlt := turns_lt (inRange_iff.mp hs).1 hon.1 hon.2
    omega
  | fuel + 1, port, hp, hsk, hfuel => by
    rw [World.assignLoop]
    show Found _ _ _ _ (Option.map _ (if inUse port
        then World.assignLoop inUse first last fuel (portAfter first last port)
        else some (port, portAfter first last port))) ∧ ∀ q next, (if inUse port
        then World.assignLoop inUse first last fuel (portAfter first last port)
        else some (port, portAfter first last port)) = some (q, next) → _
    by_cases hused : inUse port = true
    · rw [if_pos hused]
      have hturn := hsk.turn hs hp hused
      by_cases hend : portAfter first last port = start
      · -- the round is over: the loop has no step left
        rw [if_pos hend] at hturn
        have hround : next first.toNat last.toNat port.toNat = start.toNat := by
          rw [← hp.toNat_portAfter, hend]
        have hon := inRange_iff.mp hp
        have hstart := inRange_iff.mp hs
        have hlast := (next_eq_iff hstart.1 hstart.2 hon.1 hon.2).mp hround
        obtain rfl : fuel = 0 := by omega
        exact ⟨⟨nofun, fun _ => hturn⟩, nofun⟩
      · rw [if_neg hend] at hturn
        exact assignLoop_found inUse hs fuel _ hp.portAfter hturn.1 (by omega)
    · rw [if_neg hused]
      refine ⟨⟨?_, nofun⟩, ?_⟩
      · rintro _ ⟨⟩
        exact hsk.firstFree hp (by simpa using hused)
      · rintro _ _ ⟨⟩
        exact hp.portAfter

/-- The ports a host has given to something: the test of `assign_ephemeral_port`. -/
def World.assigned (w : World) (h : IpAddr) (ports : Ports) (p : UInt16) : Bool :=
  ports.udp.contains p || w.isPortAssigned h p

theorem World.assignEphemeralPort_eq (w : World) (h : IpAddr) (ports : Ports) :
    w.assignEphemeralPort h ports
      = match World.assignLoop (w.assigned h ports) ports.first ports.last
          (ports.last.toNat + 1 - ports.first.toNat) ports.next with
        | none => .error .portsExhausted
        | some (port, next) =>
          .ok ({ w with hosts := w.hosts.insert h { ports with next := next } }, port) :=
  rfl

theorem assignEphemeralPort_found {w : World} {h : IpAddr} {ports : Ports}
    (hs : InRange ports.first ports.last ports.next) :
    ∃ r, Found ports.first ports.last ports.next (w.assigned h ports) r
      ∧ match r with
        | some p => ∃ next, InRange ports.first ports.last next
            ∧ w.assignEphemeralPort h ports
                = .ok ({ w with hosts := w.hosts.insert h { ports with next := next } }, p)
        | none => w.assignEphemeralPort h ports = .error .portsExhausted := by
  have hround : ports.last.toNat + 1 - ports.first.toNat
      = turns ports.first.toNat ports.last.toNat ports.next.toNat ports.next.toNat
        + (ports.last.toNat + 1 - ports.first.toNat) := by
    rw [turns_self, Nat.zero_add]
  obtain ⟨hfound, hnext⟩ := assignLoop_found (w.assigned h ports) hs _ _ hs
    skipped_start hround
  refine ⟨_, hfound, ?_⟩
  rw [World.assignEphemeralPort_eq]
  cases hloop : World.assignLoop (w.assigned h ports) ports.first ports.last
      (ports.last.toNat + 1 - ports.first.toNat) ports.next with
  | none => rfl
  | some found =>
    obtain ⟨p, next⟩ := found
    exact ⟨next, hnext p next hloop, rfl⟩

/-! ## 5. Both together -/

/-- **Ephemeral port allocation is complete.**  From any cursor in the range, and for any ports in
use, both allocators end, count no port past the largest number, leave the cursor in the range, and
find the first free port in cyclic order from the cursor.  Where no port is free, the one returns
`None` and the other panics. -/
theorem ephemeralPorts_complete :
    (∀ (a : PortAllocator) (inUse : UInt16 → Bool), InRange a.lo a.hi a.cursor →
      NoOverflow a.lo a.hi a.cursor
        ∧ ∃ a' r, a.allocate inUse = .ok (a', r) ∧ a'.lo = a.lo ∧ a'.hi = a.hi
          ∧ InRange a.lo a.hi a'.cursor
          ∧ (∀ p, r = some p ↔ FirstFree a.lo a.hi a.cursor inUse p)
          ∧ (r = none ↔ ∀ p, InRange a.lo a.hi p → inUse p = true))
    ∧ ∀ (w : World) (h : IpAddr) (ports : Ports), InRange ports.first ports.last ports.next →
      NoOverflow ports.first ports.last ports.next
        ∧ (∀ p, (∃ w', w.assignEphemeralPort h ports = .ok (w', p)) ↔
            FirstFree ports.first ports.last ports.next (w.assigned h ports) p)
        ∧ (∀ w' p, w.assignEphemeralPort h ports = .ok (w', p) →
            ∃ next, InRange ports.first ports.last next
              ∧ w' = { w with hosts := w.hosts.insert h { ports with next := next } })
        ∧ ((∃ e, w.assignEphemeralPort h ports = .error e) ↔
            ∀ p, InRange ports.first ports.last p → w.assigned h ports p = true) := by
  refine ⟨fun a inUse hs => ⟨hs.noOverflow, ?_⟩, fun w h ports hs => ⟨hs.noOverflow, ?_⟩⟩
  · obtain ⟨a', r, hok, hlo, hhi, hcursor, hfound⟩ := allocate_found inUse hs
    exact ⟨a', r, hok, hlo, hhi, hcursor, hfound.iff hs⟩
  · obtain ⟨r, hfound, hres⟩ := assignEphemeralPort_found (w := w) (h := h) hs
    obtain ⟨hsome, hnone⟩ := hfound.iff hs
    cases r with
    | none =>
      have herr : w.assignEphemeralPort h ports = .error .portsExhausted := hres
      refine ⟨fun p => ?_, ?_, ?_⟩
      · rw [← hsome p, herr]
        exact ⟨nofun, nofun⟩
      · rw [herr]
        nofun
      · exact ⟨fun _ => hnone.mp rfl, fun _ => ⟨_, herr⟩⟩
    | some q =>
      obtain ⟨next, hnext, hok⟩ := hres
      refine ⟨fun p => ?_, ?_, ?_⟩
      · rw [← hsome p, hok]
        constructor
        · rintro ⟨_, ⟨⟩⟩
          rfl
        · rintro ⟨⟩
          exact ⟨_, rfl⟩
      · rw [hok]
        rintro _ _ ⟨⟩
        exact ⟨next, hnext, rfl⟩
      · rw [hok]
        exact ⟨nofun, fun hall => nomatch hnone.mpr hall⟩

/-- A range that ends with the largest number, of which the first port is free alone: a cursor at
its end goes round to it. -/
theorem ephemeralPorts_complete_roundTheEnd :
    (∃ a', PortAllocator.allocate ⟨65533, 65535, 65534⟩ (fun p => p != 65533)
        = .ok (a', some 65533))
      ∧ ∃ w', (World.new [] 65534 65535 1).assignEphemeralPort (.v4 0) ⟨65535, 65534, 65535, [65535]⟩
        = .ok (w', 65534) := by
  obtain ⟨-, a', r, hok, -, -, -, hfound, -⟩ :=
    ephemeralPorts_complete.1 ⟨65533, 65535, 65534⟩ (fun p => p != 65533) ⟨by decide, by decide⟩
  have hleast : FirstFree 65533 65535 65534 (fun p => p != 65533) 65533 := by
    refine ⟨⟨by decide, by decide⟩, by decide, fun b _ hfree => ?_⟩
    obtain rfl : b = 65533 := by simpa using hfree
    exact Nat.le_refl _
  obtain rfl := (hfound 65533).mpr hleast
  refine ⟨⟨a', hok⟩, ?_⟩
  obtain ⟨-, hassign, -, -⟩ := ephemeralPorts_complete.2 (World.new [] 65534 65535 1) (.v4 0)
    ⟨65535, 65534, 65535, [65535]⟩ ⟨by decide, by decide⟩
  refine (hassign 65534).mpr ⟨⟨by decide, by decide⟩, by decide, fun b hb hfree => ?_⟩
  have hne : b ≠ 65535 := by
    rintro rfl
    exact hfree (by decide)
  have hlast : b.toNat + 1 < 65536 := InRange.succ_lt (inRange_iff.mpr hb) hne
  have hfirst : 65534 ≤ b.toNat := hb.1
  have hb' : b.toNat = (65534 : UInt16).toNat := by
    rw [show (65534 : UInt16).toNat = 65534 from rfl]
    omega
  exact Nat.le_of_eq (by rw [hb'])

end Turmoil.Stream
