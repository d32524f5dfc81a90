/-
# Numbers that wrap

Positions in an unbounded sequence, written as 32-bit numbers: `serial base n` is the position `n`
after `base`.  The numbers wrap, so two positions are told apart, and their distance recovered, as
long as they are less than `2 ^ 32` apart.
-/
import Mathlib.Algebra.GroupWithZero.Nat

namespace Turmoil

/-- The number `n` places after `base`. -/
def serial (base : UInt32) (n : Nat) : UInt32 := base + UInt32.ofNat n

variable {base : UInt32} {m n : Nat}

@[simp] theorem serial_zero (base : UInt32) : serial base 0 = base := by
  simp [serial]

theorem toNat_serial (base : UInt32) (n : Nat) :
    (serial base n).toNat = (base.toNat + n) % 2 ^ 32 := by
  simp [serial, UInt32.toNat_add, UInt32.toNat_ofNat']

theorem serial_add (base : UInt32) (m n : Nat) :
    serial base m + UInt32.ofNat n = serial base (m + n) := by
  rw [← UInt32.toNat_inj, toNat_serial, UInt32.toNat_add, toNat_serial, UInt32.toNat_ofNat']
  omega

theorem serial_add_one (base : UInt32) (n : Nat) : serial base n + 1 = serial base (n + 1) :=
  serial_add base n 1

/-- A position counted from another one. -/
theorem serial_serial (base : UInt32) (m n : Nat) :
    serial (serial base m) n = serial base (m + n) :=
  serial_add base m n

/-- The distance between two positions. -/
theorem toNat_serial_sub (hle : m ≤ n) (hlt : n - m < 2 ^ 32) :
    (serial base n - serial base m).toNat = n - m := by
  have hb := base.toNat_lt
  rw [UInt32.toNat_sub, toNat_serial, toNat_serial]
  omega

/-- Close positions have different numbers. -/
theorem serial_inj (hm : m < 2 ^ 32) (hn : n < 2 ^ 32) : serial base m = serial base n ↔ m = n := by
  constructor
  · intro h
    have hb := base.toNat_lt
    have hnum := congrArg UInt32.toNat h
    rw [toNat_serial, toNat_serial] at hnum
    omega
  · rintro rfl
    rfl

/-- Every number is a position after any other. -/
theorem eq_serial_sub (base a : UInt32) : a = serial base (a - base).toNat := by
  have hb := base.toNat_lt
  have ha := a.toNat_lt
  rw [← UInt32.toNat_inj, toNat_serial, UInt32.toNat_sub]
  omega

theorem serial_sub_one (base : UInt32) (n : Nat) : serial base (n + 1) - 1 = serial base n := by
  rw [← serial_add_one]
  grind

end Turmoil
