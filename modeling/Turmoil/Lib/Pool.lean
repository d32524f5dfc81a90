/-
# Pools

A pool is a vector whose order carries no meaning: an element is taken out by `swap_remove`, which
moves the last one into the gap, and a scan that takes out what meets a test does not advance after
a removal.  Whatever the order, nothing is lost or duplicated: each operation is a permutation of
the pool it started from.
-/
import Mathlib.Data.List.FinRange
import Mathlib.Data.List.Induction
import Mathlib.Data.List.Perm.Basic

namespace Turmoil

variable {α : Type}

/-! ## 1. Taking one out -/

/-- `Vec::swap_remove` without the element it returns. -/
def swapRemove (xs : List α) (i : Nat) : List α :=
  match xs.getLast? with
  | some last => (xs.set i last).dropLast
  | none => []

theorem swapRemove_append (xs : List α) (last : α) (i : Nat) :
    swapRemove (xs ++ [last]) i = xs.set i last := by
  rw [swapRemove, List.getLast?_append, List.getLast?_singleton]
  rcases Nat.lt_or_ge i xs.length with hi | hi
  · simp [List.set_append_left _ _ hi]
  · rw [List.set_eq_of_length_le hi]
    rcases Nat.eq_or_lt_of_le hi with rfl | hlt
    · simp [List.set_append_right]
    · simp [List.set_eq_of_length_le (l := xs ++ [last]) (i := i) (by simp; omega)]

theorem set_perm {xs : List α} {i : Nat} {x : α} (h : xs[i]? = some x) (y : α) :
    (x :: xs.set i y).Perm (y :: xs) := by
  induction xs generalizing i with
  | nil => cases h
  | cons z xs ih =>
    cases i with
    | zero =>
      cases h
      exact List.Perm.swap _ _ _
    | succ i =>
      calc x :: z :: xs.set i y
        _ |>.Perm (z :: x :: xs.set i y) := List.Perm.swap _ _ _
        _ |>.Perm (z :: y :: xs) := (ih h).cons z
        _ |>.Perm (y :: z :: xs) := List.Perm.swap _ _ _

/-- Taking out an element leaves the others. -/
theorem swapRemove_perm {xs : List α} {i : Nat} {x : α} (h : xs[i]? = some x) :
    (x :: swapRemove xs i).Perm xs := by
  induction xs using List.reverseRecOn with
  | nil => cases h
  | append_singleton xs last _ =>
    rw [swapRemove_append]
    rcases Nat.lt_or_ge i xs.length with hi | hi
    · rw [List.getElem?_append_left hi] at h
      exact (set_perm h last).trans (List.perm_append_singleton _ _).symm
    · rw [List.getElem?_append_right hi] at h
      have hz : i - xs.length = 0 := by
        by_contra hne
        simp [hne] at h
      rw [hz] at h
      cases h
      rw [List.set_eq_of_length_le hi]
      exact (List.perm_append_singleton _ _).symm

/-! ## 2. The scan -/

/-- `while i < xs.len() { if p(xs[i]) { out.push(xs.swap_remove(i)) } else { i += 1 } }`.  Every turn
brings `i` and the length closer together, so the length is fuel enough. -/
def scanOut (p : α → Bool) : Nat → Nat → List α → List α → List α × List α
  | 0, _, xs, out => (xs, out)
  | fuel + 1, i, xs, out =>
    match xs[i]? with
    | none => (xs, out)
    | some x =>
      if p x then scanOut p fuel i (swapRemove xs i) (out ++ [x])
      else scanOut p fuel (i + 1) xs out

theorem length_swapRemove {xs : List α} {i : Nat} {x : α} (h : xs[i]? = some x) :
    (swapRemove xs i).length + 1 = xs.length := by
  simpa using (swapRemove_perm h).length_eq

theorem take_swapRemove {xs : List α} {i : Nat} {x : α} (h : xs[i]? = some x) :
    (swapRemove xs i).take i = xs.take i := by
  induction xs using List.reverseRecOn with
  | nil => cases h
  | append_singleton ys last _ =>
    have hi : i < (ys ++ [last]).length := (List.getElem?_eq_some_iff.mp h).1
    rw [List.length_append, List.length_singleton] at hi
    rw [swapRemove_append, List.take_set_of_le (Nat.le_refl i),
      List.take_append_of_le_length (by omega)]

/-- What the scan takes out meets the test, what it leaves does not, and together they are what was
there. -/
theorem scanOut_spec (p : α → Bool) : ∀ (fuel i : Nat) (xs out : List α),
    xs.length ≤ i + fuel → (∀ x ∈ xs.take i, p x = false) → (∀ x ∈ out, p x = true) →
    ((scanOut p fuel i xs out).2 ++ (scanOut p fuel i xs out).1).Perm (out ++ xs)
      ∧ (∀ x ∈ (scanOut p fuel i xs out).1, p x = false)
      ∧ ∀ x ∈ (scanOut p fuel i xs out).2, p x = true := by
  intro fuel
  induction fuel with
  | zero =>
    intro i xs out hlen hleft hout
    rw [List.take_of_length_le (by omega)] at hleft
    exact ⟨List.Perm.refl _, hleft, hout⟩
  | succ fuel ih =>
    intro i xs out hlen hleft hout
    rw [scanOut]
    cases hx : xs[i]? with
    | none =>
      rw [List.take_of_length_le (List.getElem?_eq_none_iff.mp hx)] at hleft
      exact ⟨List.Perm.refl _, hleft, hout⟩
    | some x =>
      dsimp only
      split
      · rename_i hp
        have hlen' := length_swapRemove hx
        obtain ⟨hperm, hkept, htaken⟩ := ih i (swapRemove xs i) (out ++ [x]) (by omega)
          (by rw [take_swapRemove hx]; exact hleft)
          (fun y hy => by
            rcases List.mem_append.mp hy with hy | hy
            · exact hout y hy
            · rw [List.mem_singleton.mp hy]
              exact hp)
        refine ⟨hperm.trans ?_, hkept, htaken⟩
        rw [List.append_assoc]
        exact (swapRemove_perm hx).append_left out
      · rename_i hp
        refine ih (i + 1) xs out (by omega) (fun y hy => ?_) hout
        rw [List.take_add_one, hx] at hy
        rcases List.mem_append.mp hy with hy | hy
        · exact hleft y hy
        · rw [List.mem_singleton.mp hy]
          exact eq_false_of_ne_true hp

/-! ## 3. Shuffling -/

/-- The outcome of a shuffle: for every length, the order it produces. -/
abbrev Shuffle := (n : Nat) → Equiv.Perm (Fin n)

def shuffle (σ : Shuffle) (xs : List α) : List α :=
  List.ofFn fun i => xs.get (σ xs.length i)

theorem shuffle_perm (σ : Shuffle) (xs : List α) : (shuffle σ xs).Perm xs := by
  have h := Equiv.Perm.ofFn_comp_perm (σ xs.length) xs.get
  rw [List.ofFn_get] at h
  exact h

end Turmoil
