/-
# Addresses, packets and results

The packets of the simulated network are not encoded: they carry the fields a kernel would read
from the headers.  Sequence and acknowledgement numbers are 32-bit and wrap, windows and ports
are 16-bit.
-/
import Mathlib.Algebra.GroupWithZero.Nat
import Mathlib.Data.List.Basic

namespace Turmoil.Net

/-! ## 1. Addresses -/

inductive IpAddr where
  | v4 (addr : BitVec 32)
  | v6 (addr : BitVec 128)
  deriving DecidableEq, Repr

namespace IpAddr

def localhost4 : IpAddr := v4 0x7F000001
def localhost6 : IpAddr := v6 1
def unspecified4 : IpAddr := v4 0
def unspecified6 : IpAddr := v6 0

/-- `127.0.0.0/8` and `::1`. -/
def isLoopback : IpAddr → Bool
  | v4 a => a >>> 24 == 127
  | v6 a => a == 1

def isUnspecified : IpAddr → Bool
  | v4 a => a == 0
  | v6 a => a == 0

def isIpv4 : IpAddr → Bool
  | v4 _ => true
  | v6 _ => false

/-- The loopback address of the same family. -/
def localhostLike : IpAddr → IpAddr
  | v4 _ => localhost4
  | v6 _ => localhost6

/-- The wildcard address of the same family. -/
def unspecifiedLike : IpAddr → IpAddr
  | v4 _ => unspecified4
  | v6 _ => unspecified6

/-- `is_ipv4_broadcast`: the limited broadcast address, or a last octet of 255. -/
def isIpv4Broadcast : IpAddr → Bool
  | v4 a => a == 0xFFFFFFFF || a &&& 0xFF == 0xFF
  | v6 _ => false

end IpAddr

structure SocketAddr where
  ip : IpAddr
  port : UInt16
  deriving DecidableEq, Repr

/-! ## 2. Packets -/

/-- `IPV4_HEADER_SIZE` or `IPV6_HEADER_SIZE`. -/
def IpAddr.headerSize : IpAddr → Nat
  | v4 _ => 20
  | v6 _ => 40

def udpHeaderSize : Nat := 8

def tcpHeaderSize : Nat := 20

structure TcpFlags where
  syn : Bool := false
  ack : Bool := false
  fin : Bool := false
  rst : Bool := false
  psh : Bool := false
  urg : Bool := false
  deriving DecidableEq, Repr

structure TcpSegment where
  srcPort : UInt16
  dstPort : UInt16
  seq : UInt32
  ack : UInt32
  flags : TcpFlags
  window : UInt16
  payload : List UInt8
  deriving DecidableEq, Repr

structure UdpDatagram where
  srcPort : UInt16
  dstPort : UInt16
  payload : List UInt8
  deriving DecidableEq, Repr

inductive Transport where
  | udp (d : UdpDatagram)
  | tcp (s : TcpSegment)
  deriving DecidableEq, Repr

structure Packet where
  src : IpAddr
  dst : IpAddr
  ttl : UInt8
  payload : Transport
  deriving DecidableEq, Repr

/-! ## 3. Results -/

/-- The errors the kernel returns; `os` is `from_raw_os_error`. -/
inductive NetError where
  | notFound
  | connectionRefused
  | connectionReset
  | notConnected
  | addrInUse
  | addrNotAvailable
  | brokenPipe
  | wouldBlock
  | invalidInput
  | timedOut
  | permissionDenied
  | unsupported
  | os (errno : Nat)
  deriving DecidableEq, Repr

/-- `EAFNOSUPPORT`. -/
def eafnosupport : NetError := .os 97

/-- `EMSGSIZE`. -/
def emsgsize : NetError := .os 90

inductive Poll (α : Type) where
  | ready (a : α)
  | pending
  deriving DecidableEq, Repr

/-- A call that does not return: a failed `expect`, `unwrap` or `unimplemented!`, a failed
assertion, an index or a split out of range, or a loop that does not end. -/
inductive Panic where
  | expect (what : String)
  | assert (what : String)
  | outOfRange
  | diverges
  deriving DecidableEq, Repr

/-- `Option::expect`. -/
def expect {α : Type} (o : Option α) (what : String) : Except Panic α :=
  match o with
  | some a => .ok a
  | none => .error (.expect what)

theorem expect_eq_ok {α : Type} {o : Option α} {what : String} {a : α} :
    expect o what = .ok a ↔ o = some a := by
  cases o <;> simp [expect]

theorem toOption_eq_some {ε α : Type} {x : Except ε α} {a : α} :
    x.toOption = some a ↔ x = .ok a := by
  cases x <;> simp [Except.toOption]

/-- A sequence that returns returned at every step. -/
theorem bind_eq_ok {ε α β : Type} {x : Except ε α} {f : α → Except ε β} {b : β} :
    (x >>= f) = .ok b ↔ ∃ a, x = .ok a ∧ f a = .ok b := by
  cases x with
  | ok a =>
    constructor
    · exact fun h => ⟨a, rfl, h⟩
    · rintro ⟨a', h1, h2⟩
      cases h1
      exact h2
  | error e =>
    constructor
    · intro h
      cases h
    · rintro ⟨_, h1, _⟩
      cases h1

/-- A sequence that panics panicked somewhere. -/
theorem bind_eq_error {α β : Type} {x : Except Panic α} {f : α → Except Panic β} {e : Panic} :
    (x >>= f) = .error e ↔ x = .error e ∨ ∃ a, x = .ok a ∧ f a = .error e := by
  cases x with
  | ok a =>
    constructor
    · exact fun h => Or.inr ⟨a, rfl, h⟩
    · rintro (h | ⟨a', h1, h2⟩)
      · cases h
      · cases h1
        exact h2
  | error e' =>
    constructor
    · intro h
      cases h
      exact Or.inl rfl
    · rintro (h | ⟨_, h1, _⟩)
      · cases h
        rfl
      · cases h1

theorem expect_ne_outOfRange {α : Type} {o : Option α} {what : String} :
    expect o what ≠ .error .outOfRange := by
  cases o <;> simp [expect]

end Turmoil.Net
