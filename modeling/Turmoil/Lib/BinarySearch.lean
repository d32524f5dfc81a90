/-
# Binary search

The search of a sorted slice as the standard library performs it: halve the part that is left and
keep the half that can hold the element, then compare once more.  On a list that splits into
elements before and elements after the one that is looked for, the search ends where the list
splits.
-/
import Mathlib.Data.List.Basic

namespace Turmoil

variable {α : Type}

/-- The loop of the search: `size` elements are left, from `base` on.  Every turn makes `size`
smaller, so the length of the list is enough fuel. -/
def searchLoop (order : Nat → Ordering) : Nat → Nat → Nat → Nat
  | 0, base, _ => base
  | fuel + 1, base, size =>
    if 1 < size then
      let half := size / 2
      searchLoop order fuel (if order (base + half) = .gt then base else base + half) (size - half)
    else base

/-- How the element at an index compares; past the end everything is greater. -/
def orderAt (cmp : α → Ordering) (l : List α) (i : Nat) : Ordering :=
  match l[i]? with
  | some a => cmp a
  | none => .gt

/-- `binary_search_by`: the index of an equal element, or where to insert one. -/
def binarySearchBy (cmp : α → Ordering) (l : List α) : Except Nat Nat :=
  if l.isEmpty then .error 0
  else
    let base := searchLoop (orderAt cmp l) l.length 0 l.length
    match orderAt cmp l base with
    | .eq => .ok base
    | .lt => .error (base + 1)
    | .gt => .error base

/-- The loop ends before the split, and no more than one element before it. -/
theorem searchLoop_split {order : Nat → Ordering} {split : Nat} (hlt : ∀ i < split, order i = .lt)
    (hgt : ∀ i, split ≤ i → order i = .gt) : ∀ {fuel base size : Nat}, size ≤ fuel →
      (base = 0 ∨ base < split) → split ≤ base + size →
      (searchLoop order fuel base size = 0 ∨ searchLoop order fuel base size < split)
        ∧ split ≤ searchLoop order fuel base size + 1 := by
  intro fuel
  induction fuel with
  | zero =>
    intro base size hfuel hbase hsize
    exact ⟨hbase, by simp only [searchLoop]; omega⟩
  | succ fuel ih =>
    intro base size hfuel hbase hsize
    unfold searchLoop
    split
    · dsimp only
      by_cases hmid : base + size / 2 < split
      · rw [hlt _ hmid, if_neg (by decide)]
        exact ih (by omega) (Or.inr hmid) (by omega)
      · rw [hgt _ (by omega), if_pos rfl]
        exact ih (by omega) hbase (by omega)
    · exact ⟨hbase, by omega⟩

/-- **Where the list splits** is where the search ends. -/
theorem binarySearchBy_split {cmp : α → Ordering} {before after : List α}
    (hbefore : ∀ a ∈ before, cmp a = .lt) (hafter : ∀ a ∈ after, cmp a = .gt) :
    binarySearchBy cmp (before ++ after) = .error before.length := by
  have hlt : ∀ i < before.length, orderAt cmp (before ++ after) i = .lt := by
    intro i hi
    rw [orderAt, List.getElem?_append_left hi, List.getElem?_eq_getElem hi]
    exact hbefore _ (List.getElem_mem hi)
  have hgt : ∀ i, before.length ≤ i → orderAt cmp (before ++ after) i = .gt := by
    intro i hi
    rw [orderAt, List.getElem?_append_right hi]
    split
    · rename_i a ha
      exact hafter a (List.mem_of_getElem? ha)
    · rfl
  unfold binarySearchBy
  split
  · rename_i hempty
    rw [List.isEmpty_iff, List.append_eq_nil_iff] at hempty
    rw [hempty.1]
    rfl
  · dsimp only
    obtain ⟨h0, h1⟩ := searchLoop_split hlt hgt (Nat.le_refl (before ++ after).length)
      (Or.inl rfl) (by rw [List.length_append]; omega)
    generalize searchLoop (orderAt cmp (before ++ after)) (before ++ after).length 0
      (before ++ after).length = base at h0 h1 ⊢
    rcases h0 with rfl | h0
    · by_cases hsplit : before.length = 0
      · rw [hgt 0 (Nat.le_of_eq hsplit), hsplit]
      · rw [hlt 0 (Nat.pos_of_ne_zero hsplit)]
        exact congrArg Except.error (by omega)
    · rw [hlt base h0]
      exact congrArg Except.error (by omega)

theorem insertIdx_split (a : α) (after : List α) : ∀ before : List α,
    (before ++ after).insertIdx before.length a = before ++ a :: after
  | [] => rfl
  | b :: before => congrArg (b :: ·) (insertIdx_split a after before)

end Turmoil
