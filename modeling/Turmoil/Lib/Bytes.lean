/-
# Growable buffers that fill with zero

A buffer is a list with a zero.  `resize` cuts it or pads it with zeros, `copyAt` overwrites a
range that already exists, and `writeAt` is the two together: the file write that zero-fills
the gap in front of it.

Everything is reduced to the total reading `getD i 0`, under which padding is invisible: a
buffer is determined by its length and by that function (`ext_getD`).
-/
import Mathlib.Data.List.GetD
import Mathlib.Data.UInt

namespace Turmoil.Buffer

variable {α : Type} [Zero α]

/-! ## 1. Operations -/

/-- `Vec::resize(n, 0)`. -/
def resize (c : List α) (n : Nat) : List α := c.take n ++ List.replicate (n - c.length) 0

/-- `buf[at .. at + src.len()].copy_from_slice(src)`, for a range inside `buf`. -/
def copyAt (c : List α) (pos : Nat) (src : List α) : List α :=
  c.take pos ++ src ++ c.drop (pos + src.length)

/-- Grow to the end of the write if need be, then copy. -/
def writeAt (c : List α) (off : Nat) (d : List α) : List α :=
  copyAt (if off + d.length > c.length then resize c (off + d.length) else c) off d

/-! ## 2. Lengths -/

@[simp] theorem length_resize (c : List α) (n : Nat) : (resize c n).length = n := by
  simp only [resize, List.length_append, List.length_take, List.length_replicate]
  omega

omit [Zero α] in
theorem length_copyAt {c : List α} {pos : Nat} {src : List α} (h : pos + src.length ≤ c.length) :
    (copyAt c pos src).length = c.length := by
  simp only [copyAt, List.length_append, List.length_take, List.length_drop]
  omega

@[simp] theorem length_writeAt (c : List α) (off : Nat) (d : List α) :
    (writeAt c off d).length = max c.length (off + d.length) := by
  unfold writeAt
  split
  · rw [length_copyAt (by simp)]
    simp only [length_resize]
    omega
  · rw [length_copyAt (by omega)]
    omega

/-! ## 3. The total reading -/

/-- A buffer is its length and its total reading. -/
theorem ext_getD {c c' : List α} (hl : c.length = c'.length)
    (h : ∀ i < c.length, c.getD i 0 = c'.getD i 0) : c = c' := by
  apply List.ext_getElem hl
  intro i h1 h2
  have := h i h1
  rwa [List.getD_eq_getElem _ _ h1, List.getD_eq_getElem _ _ h2] at this

theorem getD_of_le {c : List α} {i : Nat} (h : c.length ≤ i) : c.getD i 0 = 0 :=
  List.getD_eq_default _ _ h

theorem getD_resize (c : List α) (n i : Nat) :
    (resize c n).getD i 0 = if i < n then c.getD i 0 else 0 := by
  by_cases hn : i < n
  · rw [if_pos hn]
    by_cases hc : i < c.length
    · have h : i < (c.take n).length := by simp; omega
      rw [resize, List.getD_append _ _ _ _ h, List.getD_eq_getElem _ _ h,
        List.getD_eq_getElem _ _ hc, List.getElem_take]
    · rw [getD_of_le (Nat.le_of_not_lt hc)]
      have h : (c.take n).length ≤ i := by simp; omega
      rw [resize, List.getD_append_right _ _ _ _ h]
      simp [List.getD_eq_getElem?_getD, List.getElem?_replicate]
      split <;> rfl
  · rw [if_neg hn]
    exact getD_of_le (by simp; omega)

theorem getD_copyAt {c : List α} {pos : Nat} {src : List α} (h : pos + src.length ≤ c.length)
    (i : Nat) : (copyAt c pos src).getD i 0
      = if pos ≤ i ∧ i < pos + src.length then src.getD (i - pos) 0 else c.getD i 0 := by
  have htake : (c.take pos).length = pos := by simp; omega
  rw [copyAt, List.append_assoc]
  by_cases h1 : i < pos
  · rw [if_neg (by omega), List.getD_append _ _ _ _ (by omega),
      List.getD_eq_getElem _ _ (by omega), List.getD_eq_getElem _ _ (by omega),
      List.getElem_take]
  · rw [List.getD_append_right _ _ _ _ (by omega), htake]
    by_cases h2 : i < pos + src.length
    · rw [if_pos ⟨by omega, h2⟩, List.getD_append _ _ _ _ (by omega)]
    · rw [if_neg (by omega), List.getD_append_right _ _ _ _ (by omega)]
      simp only [List.getD_eq_getElem?_getD, List.getElem?_drop]
      congr 2
      omega

theorem getD_writeAt (c : List α) (off : Nat) (d : List α) (i : Nat) :
    (writeAt c off d).getD i 0
      = if off ≤ i ∧ i < off + d.length then d.getD (i - off) 0 else c.getD i 0 := by
  unfold writeAt
  split
  · rename_i hlt
    rw [getD_copyAt (by simp)]
    split
    · rfl
    · rename_i hin
      rw [getD_resize]
      split
      · rfl
      · rw [getD_of_le (by omega)]
  · rw [getD_copyAt (by omega)]

end Turmoil.Buffer
