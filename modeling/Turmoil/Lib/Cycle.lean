/-
# A search around a circle

The numbers `lo..=hi`, each followed by the next and `hi` by `lo`.  `turns c p` is how many steps
lead from `c` to `p`, so it orders the places of the circle by when a search that starts at `c`
comes to them.  `Passed n` says that the search found the first `n` places taken; three rules take
it from the start to either end of the search: the first free place (`Passed.first`), or no free
place at all (`Passed.all`).
-/
import Mathlib.Data.Nat.Notation
import Mathlib.Logic.Basic

namespace Turmoil.Cycle

variable {lo hi c p q n : Nat}

/-! ## 1. The circle -/

def next (lo hi p : Nat) : Nat := if p = hi then lo else p + 1

/-- How many steps lead from `c` to `p`. -/
def turns (lo hi c p : Nat) : Nat := if c ≤ p then p - c else hi + 1 - c + (p - lo)

theorem le_next (hlo : lo ≤ p) : lo ≤ next lo hi p := by
  unfold next
  split <;> omega

theorem next_le (hlo : lo ≤ p) (hhi : p ≤ hi) : next lo hi p ≤ hi := by
  unfold next
  split <;> omega

@[simp] theorem turns_self (lo hi c : Nat) : turns lo hi c c = 0 := by simp [turns]

/-- Every place comes within one round. -/
theorem turns_lt (hc : lo ≤ c) (hlo : lo ≤ p) (hhi : p ≤ hi) : turns lo hi c p < hi + 1 - lo := by
  unfold turns
  split <;> omega

/-- No place comes twice in a round. -/
theorem turns_inj (hc : c ≤ hi) (hp : lo ≤ p) (hp' : p ≤ hi) (hq : lo ≤ q) (hq' : q ≤ hi)
    (h : turns lo hi c p = turns lo hi c q) : p = q := by
  unfold turns at h
  split at h <;> split at h <;> omega

theorem turns_next (hc : lo ≤ c) (hc' : c ≤ hi) (hlo : lo ≤ p)
    (h : next lo hi p ≠ c) :
    turns lo hi c (next lo hi p) = turns lo hi c p + 1 := by
  unfold next at h ⊢
  unfold turns
  by_cases hend : p = hi
  · simp only [if_pos hend] at h ⊢
    split <;> split <;> omega
  · simp only [if_neg hend] at h ⊢
    split <;> split <;> omega

/-- The round ends where it started. -/
theorem next_eq_iff (hc : lo ≤ c) (hc' : c ≤ hi) (hlo : lo ≤ p) (hhi : p ≤ hi) :
    next lo hi p = c ↔ turns lo hi c p + 1 = hi + 1 - lo := by
  unfold next turns
  split <;> split <;> omega

/-! ## 2. The search -/

section Search

variable {α : Type} {num : α → Nat} {taken : α → Prop} {a b : α}

/-- `a` lies on the circle. -/
def On (lo hi : Nat) (num : α → Nat) (a : α) : Prop := lo ≤ num a ∧ num a ≤ hi

/-- **The first free place in cyclic order.** -/
structure First (lo hi c : Nat) (num : α → Nat) (taken : α → Prop) (a : α) : Prop where
  on : On lo hi num a
  free : ¬ taken a
  least : ∀ b, On lo hi num b → ¬ taken b → turns lo hi c (num a) ≤ turns lo hi c (num b)

/-- The first `n` places are taken. -/
def Passed (lo hi c : Nat) (num : α → Nat) (taken : α → Prop) (n : Nat) : Prop :=
  ∀ b, On lo hi num b → turns lo hi c (num b) < n → taken b

theorem passed_zero : Passed lo hi c num taken 0 := fun _ _ h => absurd h (Nat.not_lt_zero _)

theorem Passed.succ (hinj : ∀ a b, num a = num b → a = b) (hc : c ≤ hi)
    (h : Passed lo hi c num taken (turns lo hi c (num a))) (ha : On lo hi num a)
    (ht : taken a) : Passed lo hi c num taken (turns lo hi c (num a) + 1) := by
  intro b hb hlt
  rcases Nat.lt_or_ge (turns lo hi c (num b)) (turns lo hi c (num a)) with hlt' | hge
  · exact h b hb hlt'
  · have hsame : num a = num b := turns_inj hc ha.1 ha.2 hb.1 hb.2 (by omega)
    rw [← hinj a b hsame]
    exact ht

theorem Passed.first (h : Passed lo hi c num taken (turns lo hi c (num a))) (ha : On lo hi num a)
    (hf : ¬ taken a) : First lo hi c num taken a where
  on := ha
  free := hf
  least := by
    intro b hb hfree
    apply Nat.le_of_not_lt
    intro hlt
    exact hfree (h b hb hlt)

theorem Passed.all (hc : lo ≤ c) (h : Passed lo hi c num taken (hi + 1 - lo)) :
    ∀ b, On lo hi num b → taken b :=
  fun b hb => h b hb (turns_lt hc hb.1 hb.2)

/-- There is one first free place at most. -/
theorem First.unique (hinj : ∀ a b, num a = num b → a = b) (hc : c ≤ hi)
    (ha : First lo hi c num taken a) (hb : First lo hi c num taken b) : a = b := by
  have hle := ha.least b hb.on hb.free
  have hge := hb.least a ha.on ha.free
  exact hinj a b (turns_inj hc ha.on.1 ha.on.2 hb.on.1 hb.on.2 (by omega))

end Search

end Turmoil.Cycle
