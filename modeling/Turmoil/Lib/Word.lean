/-
# Words with overflow checks

Unsigned numbers of `w` bits, as natural numbers.  A program that is built with overflow checks
computes with them until a result is no such number, and then panics: an operation returns the
result of the unbounded one, or fails.  Casts between signed and unsigned numbers do not fail, they
wrap.

A loop of checked steps is the loop of the unbounded ones as long as an invariant keeps every step
in range (`foldlM_eq_ok`); a checked sum has no such invariant, and is right exactly if the whole
sum is a word (`foldlM_add`).
-/
import Mathlib.Algebra.GroupWithZero.Nat
import Mathlib.Data.Int.Notation
import Mathlib.Algebra.BigOperators.Group.List.Basic

namespace Turmoil.Word

variable {w a b c : Nat}

/-! ## 1. Operations -/

/-- The operation that had no result. -/
inductive Overflow where
  | add
  | sub
  | mul
  | signedAdd
  deriving DecidableEq, Repr

def add (w a b : Nat) : Except Overflow Nat := if a + b < 2 ^ w then .ok (a + b) else .error .add

def sub (a b : Nat) : Except Overflow Nat := if b ≤ a then .ok (a - b) else .error .sub

def mul (w a b : Nat) : Except Overflow Nat := if a * b < 2 ^ w then .ok (a * b) else .error .mul

/-- The signed number with the same bits. -/
def signed (w a : Nat) : Int := if a < 2 ^ (w - 1) then a else a - 2 ^ w

/-- The unsigned number with the same bits. -/
def unsigned (w : Nat) (i : Int) : Nat := (i % 2 ^ w).toNat

def addSigned (w : Nat) (i j : Int) : Except Overflow Int :=
  if -2 ^ (w - 1) ≤ i + j ∧ i + j < 2 ^ (w - 1) then .ok (i + j) else .error .signedAdd

theorem add_of_lt (h : a + b < 2 ^ w) : add w a b = .ok (a + b) := if_pos h

theorem add_of_not_lt (h : ¬ a + b < 2 ^ w) : add w a b = .error .add := if_neg h

theorem sub_of_le (h : b ≤ a) : sub a b = .ok (a - b) := if_pos h

theorem mul_of_lt (h : a * b < 2 ^ w) : mul w a b = .ok (a * b) := if_pos h

theorem unsigned_of_nonneg {i : Int} (h0 : 0 ≤ i) (h : i < 2 ^ w) : unsigned w i = i.toNat := by
  rw [unsigned, Int.emod_eq_of_lt h0 h]

/-! ## 2. Sequences and loops -/

section Loops

variable {ε α β : Type}

theorem ok_bind (a : α) (f : α → Except ε β) : (Except.ok a >>= f) = f a := rfl

theorem error_bind (e : ε) (f : α → Except ε β) : (Except.error e >>= f) = .error e := rfl

/-- **A loop that does not fail.**  As long as an invariant holds, every step is the unbounded one
and keeps it. -/
theorem foldlM_eq_ok {f : β → α → Except ε β} {g : β → α → β} {I : β → Prop} :
    ∀ {l : List α} {b : β}, I b →
      (∀ b, ∀ a ∈ l, I b → f b a = .ok (g b a) ∧ I (g b a)) →
      l.foldlM f b = .ok (l.foldl g b) ∧ I (l.foldl g b)
  | [], _, hb, _ => ⟨rfl, hb⟩
  | a :: l, b, hb, hstep => by
    obtain ⟨hok, hb'⟩ := hstep b a List.mem_cons_self hb
    rw [List.foldlM_cons, hok, ok_bind, List.foldl_cons]
    exact foldlM_eq_ok hb' fun b' a' ha' => hstep b' a' (List.mem_cons_of_mem a ha')

/-- **A checked sum.** -/
theorem foldlM_add : ∀ {l : List Nat} {a : Nat}, a < 2 ^ w →
    l.foldlM (add w) a = if a + l.sum < 2 ^ w then .ok (a + l.sum) else .error .add
  | [], a, ha => by
    rw [List.sum_nil, Nat.add_zero, if_pos ha]
    rfl
  | b :: l, a, _ => by
    rw [List.foldlM_cons, List.sum_cons, ← Nat.add_assoc]
    by_cases h : a + b < 2 ^ w
    · rw [add_of_lt h, ok_bind]
      exact foldlM_add h
    · rw [add_of_not_lt h, error_bind, if_neg (by omega)]

end Loops

/-! ## 3. Exact conditions -/

section Returns

variable {ε α β : Type} {p q : Prop} {x : Except ε α} {f : α → Except ε β} {y : β}

/-- A checked computation that is the unbounded one exactly under a condition, and fails without
it. -/
def Returns (p : Prop) (x : Except ε α) (a : α) : Prop := (p ∧ x = .ok a) ∨ (¬ p ∧ ∃ e, x = .error e)

theorem Returns.of_ok {a : α} (h : x = .ok a) : Returns True x a := Or.inl ⟨trivial, h⟩

theorem Returns.ok {a : α} (h : Returns p x a) (hp : p) : x = .ok a := by
  rcases h with ⟨-, h⟩ | ⟨hnot, -⟩
  · exact h
  · exact absurd hp hnot

theorem Returns.congr {a : α} (h : Returns p x a) (hpq : p ↔ q) : Returns q x a := by
  rwa [Returns, ← hpq]

/-- One after the other. -/
theorem Returns.bind {a : α} (h : Returns p x a) (hf : p → Returns q (f a) y) :
    Returns (p ∧ q) (x >>= f) y := by
  rcases h with ⟨hp, rfl⟩ | ⟨hnot, e, rfl⟩
  · rw [ok_bind]
    exact (hf hp).congr (by simp [hp])
  · exact Or.inr ⟨fun h => hnot h.1, e, rfl⟩

/-- An early exit, on both sides. -/
theorem Returns.guard {c : Prop} [Decidable c] {a b : α} (h : ¬ c → Returns p x a) :
    Returns (¬ c → p) (if c then pure b else x) (if c then b else a) := by
  by_cases hc : c
  · rw [if_pos hc, if_pos hc]
    exact Or.inl ⟨fun hn => absurd hc hn, rfl⟩
  · rw [if_neg hc, if_neg hc]
    exact (h hc).congr (by simp [hc])

/-- What is done with the result does not fail. -/
theorem Returns.map {a : α} (h : Returns p x a) (g : α → β) :
    Returns p (x >>= fun a => pure (g a)) (g a) :=
  Returns.congr (h.bind fun _ => Returns.of_ok rfl) (and_iff_left trivial)

theorem returns_add {a b : Nat} : Returns (a + b < 2 ^ w) (add w a b) (a + b) := by
  by_cases h : a + b < 2 ^ w
  · exact Or.inl ⟨h, add_of_lt h⟩
  · exact Or.inr ⟨h, .add, add_of_not_lt h⟩

end Returns

end Turmoil.Word
