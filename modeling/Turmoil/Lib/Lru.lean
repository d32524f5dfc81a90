/-
# Least recently used

A bounded set that forgets, when it is full, the key that was used the longest time ago.  The list
holds the keys in the order of their last use, the most recent one at the end.
-/
import Mathlib.Data.List.Nodup

namespace Turmoil.Lru

variable {κ : Type} [DecidableEq κ]

/-! ## 1. The operations -/

/-- `k` becomes the most recent key. -/
def touch (k : κ) (l : List κ) : List κ := l.erase k ++ [k]

/-- Is `k` there?  If so, it has been used. -/
def access (k : κ) (l : List κ) : List κ × Bool := if k ∈ l then (touch k l, true) else (l, false)

/-- `k` is used, and put in if it is not there: then, in a full set, the oldest key goes. -/
def insert (capacity : Nat) (k : κ) (l : List κ) : List κ :=
  if k ∈ l then touch k l
  else if l.length < capacity then l ++ [k]
  else l.tail ++ [k]

/-- The keys that match are forgotten. -/
def forget (p : κ → Bool) (l : List κ) : List κ := l.filter fun k => !p k

/-! ## 2. What they keep -/

variable {capacity : Nat} {k : κ} {l : List κ}

theorem touch_append_cons {a t : List κ} (h : k ∉ a) :
    touch k (a ++ k :: t) = a ++ t ++ [k] := by
  rw [touch, List.erase_append_right _ h, List.erase_cons_head]

theorem length_touch (h : k ∈ l) : (touch k l).length = l.length := by
  rw [touch, List.length_append, List.length_erase_of_mem h, List.length_singleton]
  exact Nat.sub_add_cancel (List.length_pos_of_mem h)

end Turmoil.Lru
