/-
# An insertion-ordered map with unique keys

The simulation keeps nearly all of its tables in hash maps that remember insertion order.
Iteration follows that order, a removal either shifts the tail down or swaps the last entry
into the hole, and a key occurs at most once.  This module is that container on its own: a
list of entries together with the proof that no key repeats, so that a table with a
duplicated key cannot be written down.

Lookups are characterised by `get?` alone.  Every operation has one lemma saying what `get?`
returns afterwards, and a map is used elsewhere through those lemmas; the order of the
entries matters only to the callers that iterate.
-/
import Mathlib.Algebra.GroupWithZero.Nat
import Mathlib.Data.List.Nodup
import Mathlib.Data.List.Perm.Basic

namespace Turmoil

/-- A finite map that remembers the order in which its keys were inserted. -/
structure IndexMap (κ ν : Type) where
  entries : List (κ × ν)
  nodup : (entries.map Prod.fst).Nodup

namespace IndexMap

variable {κ ν : Type} [DecidableEq κ]

/-! ## 1. The operations on bare entry lists -/

/-- First value stored under `k`. -/
def lookup (k : κ) : List (κ × ν) → Option ν
  | [] => none
  | e :: t => if e.1 = k then some e.2 else lookup k t

/-- Replace the value under `k` where it stands, or append a new entry. -/
def put (k : κ) (v : ν) : List (κ × ν) → List (κ × ν)
  | [] => [(k, v)]
  | e :: t => if e.1 = k then (k, v) :: t else e :: put k v t

/-- Remove the entry under `k` and move the LAST entry into its place. -/
def swapOut (k : κ) : List (κ × ν) → List (κ × ν)
  | [] => []
  | e :: t =>
    if e.1 = k then
      match t.getLast? with
      | none => []
      | some l => l :: t.dropLast
    else e :: swapOut k t

/-- Update the value under `k` where it stands. -/
def update (k : κ) (f : ν → ν) : List (κ × ν) → List (κ × ν)
  | [] => []
  | e :: t => if e.1 = k then (e.1, f e.2) :: t else e :: update k f t

theorem keys_put (k : κ) (v : ν) : ∀ l : List (κ × ν),
    (put k v l).map Prod.fst = if k ∈ l.map Prod.fst then l.map Prod.fst
      else l.map Prod.fst ++ [k]
  | [] => by simp [put]
  | e :: t => by
    have ih := keys_put k v t
    by_cases h : e.1 = k
    · simp [put, h]
    · have h' : ¬ k = e.1 := fun e => h e.symm
      simp only [put, h, if_false, List.map_cons, ih, List.mem_cons, h', false_or]
      split <;> rfl

theorem keys_update (k : κ) (f : ν → ν) : ∀ l : List (κ × ν),
    (update k f l).map Prod.fst = l.map Prod.fst
  | [] => rfl
  | e :: t => by
    by_cases h : e.1 = k
    · simp [update, h]
    · simp [update, h, keys_update k f t]

/-- Swapping out a key that is not there changes nothing. -/
theorem swapOut_of_not_mem {k : κ} : ∀ {l : List (κ × ν)}, k ∉ l.map Prod.fst → swapOut k l = l
  | [], _ => rfl
  | e :: t, h => by
    simp only [List.map_cons, List.mem_cons, not_or] at h
    rw [swapOut, if_neg (fun e => h.1 e.symm), swapOut_of_not_mem h.2]

/-- Up to order, swapping out is filtering. -/
theorem swapOut_perm {k : κ} : ∀ {l : List (κ × ν)}, (l.map Prod.fst).Nodup →
    (swapOut k l).Perm (l.filter (fun e => e.1 ≠ k))
  | [], _ => List.Perm.refl _
  | e :: t, h => by
    simp only [List.map_cons, List.nodup_cons] at h
    by_cases he : e.1 = k
    · have hk : k ∉ t.map Prod.fst := he ▸ h.1
      have hall : t.filter (fun e => e.1 ≠ k) = t := by
        rw [List.filter_eq_self]
        intro a ha
        have : a.1 ≠ k := fun hak => hk (hak ▸ List.mem_map_of_mem ha)
        simpa using this
      rw [List.filter_cons_of_neg (by simp [he]), hall, swapOut, if_pos he]
      cases hl : t.getLast? with
      | none => rw [List.getLast?_eq_none_iff.mp hl]
      | some l =>
        obtain ⟨init, rfl⟩ := List.getLast?_eq_some_iff.mp hl
        simpa using (List.perm_append_singleton l init).symm
    · rw [List.filter_cons_of_pos (by simp [he]), swapOut, if_neg he]
      exact (swapOut_perm h.2).cons e

theorem lookup_eq_none {k : κ} : ∀ {l : List (κ × ν)}, lookup k l = none ↔ k ∉ l.map Prod.fst
  | [] => by simp [lookup]
  | e :: t => by
    by_cases h : e.1 = k
    · simp [lookup, h]
    · have h' : ¬ k = e.1 := fun e => h e.symm
      simp only [lookup, h, if_false, lookup_eq_none, List.map_cons, List.mem_cons, h', false_or]

/-- With unique keys a lookup is membership. -/
theorem lookup_eq_some {k : κ} {v : ν} : ∀ {l : List (κ × ν)}, (l.map Prod.fst).Nodup →
    (lookup k l = some v ↔ (k, v) ∈ l)
  | [], _ => by simp [lookup]
  | e :: t, h => by
    simp only [List.map_cons, List.nodup_cons] at h
    by_cases he : e.1 = k
    · have hk : ∀ w, (k, w) ∉ t := fun w hw => h.1 (he ▸ List.mem_map_of_mem hw)
      obtain ⟨a, b⟩ := e
      simp only at he
      subst he
      simp [lookup, hk, eq_comm]
    · have hne : (k, v) ≠ e := fun hkv => he (hkv ▸ rfl)
      simp [lookup, he, lookup_eq_some h.2, hne]

theorem lookup_perm {k : κ} {l l' : List (κ × ν)} (hl : (l.map Prod.fst).Nodup)
    (h : l.Perm l') : lookup k l = lookup k l' := by
  have hl' : (l'.map Prod.fst).Nodup := (h.map Prod.fst).nodup_iff.mp hl
  apply Option.ext
  intro v
  rw [lookup_eq_some hl, lookup_eq_some hl', h.mem_iff]

theorem lookup_filter {k : κ} (p : κ → Bool) : ∀ l : List (κ × ν),
    lookup k (l.filter (fun e => p e.1)) = if p k then lookup k l else none
  | [] => by simp [lookup]
  | e :: t => by
    have ih := lookup_filter (k := k) p t
    by_cases he : e.1 = k
    · subst he
      cases hp : p e.1 <;> simp_all [lookup]
    · cases hp : p e.1 <;> simp_all [lookup]

/-! ## 2. The map -/

/-- The map without entries. -/
def empty : IndexMap κ ν := ⟨[], List.nodup_nil⟩

/-- The value under `k`, if there is one. -/
def get? (m : IndexMap κ ν) (k : κ) : Option ν := lookup k m.entries

def contains (m : IndexMap κ ν) (k : κ) : Bool := (m.get? k).isSome

def keys (m : IndexMap κ ν) : List κ := m.entries.map Prod.fst

def values (m : IndexMap κ ν) : List ν := m.entries.map Prod.snd

/-- Store `v` under `k`, in place when `k` is known and at the end otherwise. -/
def insert (m : IndexMap κ ν) (k : κ) (v : ν) : IndexMap κ ν where
  entries := put k v m.entries
  nodup := by
    rw [keys_put]
    split
    · exact m.nodup
    · rename_i h
      exact List.nodup_append.mpr ⟨m.nodup, List.nodup_singleton k, by
        intro a ha b hb
        rw [List.mem_singleton] at hb
        exact fun e => h (hb ▸ e ▸ ha)⟩

/-- `entry(k).or_insert(v)`: an existing value stays. -/
def orInsert (m : IndexMap κ ν) (k : κ) (v : ν) : IndexMap κ ν :=
  if m.contains k then m else m.insert k v

/-- `get_mut` followed by an assignment through the reference. -/
def modify (m : IndexMap κ ν) (k : κ) (f : ν → ν) : IndexMap κ ν where
  entries := update k f m.entries
  nodup := by rw [keys_update]; exact m.nodup

def swapRemove (m : IndexMap κ ν) (k : κ) : IndexMap κ ν where
  entries := swapOut k m.entries
  nodup := by
    refine ((swapOut_perm m.nodup).map Prod.fst).nodup_iff.mpr ?_
    exact m.nodup.sublist (List.filter_sublist.map Prod.fst)

/-- Keep the entries whose key satisfies `p`, in order. -/
def retainKeys (m : IndexMap κ ν) (p : κ → Bool) : IndexMap κ ν where
  entries := m.entries.filter (fun e => p e.1)
  nodup := m.nodup.sublist (List.filter_sublist.map Prod.fst)

/-- Remove the entry under `k` and close the gap. -/
def shiftRemove (m : IndexMap κ ν) (k : κ) : IndexMap κ ν := m.retainKeys (fun a => a ≠ k)

/-- Keep the entries that satisfy `p`, in order. -/
def retain (m : IndexMap κ ν) (p : κ → ν → Bool) : IndexMap κ ν where
  entries := m.entries.filter (fun e => p e.1 e.2)
  nodup := m.nodup.sublist (List.filter_sublist.map Prod.fst)

/-- Change every value. -/
def mapValues (m : IndexMap κ ν) (f : ν → ν) : IndexMap κ ν where
  entries := m.entries.map fun e => (e.1, f e.2)
  nodup := by
    rw [List.map_map]
    exact m.nodup

/-! ## 3. What each operation does to a lookup -/

@[simp] theorem get?_empty (k : κ) : (empty : IndexMap κ ν).get? k = none := rfl

theorem contains_iff {m : IndexMap κ ν} {k : κ} : m.contains k = true ↔ ∃ v, m.get? k = some v :=
  Option.isSome_iff_exists

theorem contains_eq_false {m : IndexMap κ ν} {k : κ} :
    m.contains k = false ↔ m.get? k = none := by
  simp [contains]

theorem mem_keys {m : IndexMap κ ν} {k : κ} : k ∈ m.keys ↔ ∃ v, m.get? k = some v := by
  rw [← not_iff_not, ← Option.isSome_iff_exists, Bool.not_eq_true, Option.isSome_eq_false_iff,
    Option.isNone_iff_eq_none]
  exact lookup_eq_none.symm

theorem mem_entries {m : IndexMap κ ν} {k : κ} {v : ν} :
    (k, v) ∈ m.entries ↔ m.get? k = some v :=
  (lookup_eq_some m.nodup).symm

@[simp] theorem get?_insert (m : IndexMap κ ν) (k k' : κ) (v : ν) :
    (m.insert k v).get? k' = if k' = k then some v else m.get? k' := by
  show lookup k' (put k v m.entries) = _
  have : ∀ l : List (κ × ν), lookup k' (put k v l) = if k' = k then some v else lookup k' l := by
    intro l
    induction l with
    | nil =>
      by_cases h : k' = k
      · simp [put, lookup, h]
      · have h1 : ¬ k = k' := fun e => h e.symm
        simp [put, lookup, h, h1]
    | cons e t ih =>
      by_cases he : e.1 = k
      · by_cases h : k' = k
        · simp [put, lookup, he, h]
        · have h1 : ¬ k = k' := fun e => h e.symm
          simp [put, lookup, he, h, h1]
      · by_cases h : k' = k
        · subst h; simp_all [put, lookup]
        · simp_all [put, lookup]
  exact this m.entries

@[simp] theorem get?_modify (m : IndexMap κ ν) (k k' : κ) (f : ν → ν) :
    (m.modify k f).get? k' = if k' = k then (m.get? k).map f else m.get? k' := by
  show lookup k' (update k f m.entries) = if k' = k then (lookup k m.entries).map f else _
  have : ∀ l : List (κ × ν), lookup k' (update k f l)
      = if k' = k then (lookup k l).map f else lookup k' l := by
    intro l
    induction l with
    | nil => simp [update, lookup]
    | cons e t ih =>
      by_cases he : e.1 = k
      · by_cases h : k' = k
        · simp [update, lookup, he, h]
        · have h1 : ¬ k = k' := fun e => h e.symm
          simp [update, lookup, he, h, h1]
      · by_cases h : k' = k
        · subst h; simp_all [update, lookup]
        · simp_all [update, lookup]
  exact this m.entries

/-- Only what happens to the value that is there matters. -/
theorem modify_congr {m : IndexMap κ ν} {k : κ} {f g : ν → ν}
    (h : ∀ v, m.get? k = some v → f v = g v) : m.modify k f = m.modify k g := by
  have hu : ∀ l : List (κ × ν), (∀ v, lookup k l = some v → f v = g v) →
      update k f l = update k g l := by
    intro l
    induction l with
    | nil => exact fun _ => rfl
    | cons e t ih =>
      intro h
      by_cases he : e.1 = k
      · rw [update, update, if_pos he, if_pos he, h e.2 (by rw [lookup, if_pos he])]
      · rw [update, update, if_neg he, if_neg he, ih fun v hv => h v (by rw [lookup, if_neg he, hv])]
  unfold modify
  congr 1
  exact hu m.entries h

/-- Two changes under one key are one. -/
theorem modify_modify (m : IndexMap κ ν) (k : κ) (f g : ν → ν) :
    (m.modify k f).modify k g = m.modify k (g ∘ f) := by
  have hu : ∀ l : List (κ × ν), update k g (update k f l) = update k (g ∘ f) l := by
    intro l
    induction l with
    | nil => rfl
    | cons e t ih =>
      by_cases he : e.1 = k
      · simp [update, he]
      · simp [update, he, ih]
  unfold modify
  congr 1
  exact hu m.entries

theorem modify_self {m : IndexMap κ ν} {k : κ} {f : ν → ν} (h : ∀ v, m.get? k = some v → f v = v) :
    m.modify k f = m := by
  have hu : ∀ l : List (κ × ν), update k id l = l := by
    intro l
    induction l with
    | nil => rfl
    | cons e t ih =>
      rw [update]
      split
      · rfl
      · rw [ih]
  rw [modify_congr (g := id) h]
  unfold modify
  congr 1
  exact hu m.entries

@[simp] theorem get?_retainKeys (m : IndexMap κ ν) (p : κ → Bool) (k : κ) :
    (m.retainKeys p).get? k = if p k then m.get? k else none :=
  lookup_filter p m.entries

@[simp] theorem get?_shiftRemove (m : IndexMap κ ν) (k k' : κ) :
    (m.shiftRemove k).get? k' = if k' = k then none else m.get? k' := by
  rw [shiftRemove, get?_retainKeys]
  by_cases h : k' = k <;> simp [h]

@[simp] theorem get?_swapRemove (m : IndexMap κ ν) (k k' : κ) :
    (m.swapRemove k).get? k' = if k' = k then none else m.get? k' := by
  have h := lookup_perm (k := k') (m.swapRemove k).nodup (swapOut_perm (k := k) m.nodup)
  show lookup k' (swapOut k m.entries) = _
  rw [show lookup k' (swapOut k m.entries) = lookup k' (m.entries.filter (fun e => e.1 ≠ k)) from h]
  have := lookup_filter (k := k') (fun a => decide (a ≠ k)) m.entries
  rw [this]
  by_cases hk : k' = k <;> simp [hk, get?]

@[simp] theorem get?_orInsert (m : IndexMap κ ν) (k k' : κ) (v : ν) :
    (m.orInsert k v).get? k' = if k' = k then some ((m.get? k).getD v) else m.get? k' := by
  unfold orInsert
  by_cases hc : m.contains k = true
  · obtain ⟨w, hw⟩ := contains_iff.mp hc
    rw [if_pos hc]
    by_cases h : k' = k
    · subst h; simp [hw]
    · simp [h]
  · have hn := contains_eq_false.mp (Bool.not_eq_true _ ▸ hc)
    rw [if_neg hc, get?_insert, hn]
    rfl

theorem get?_retain_of_some {m : IndexMap κ ν} {p : κ → ν → Bool} {k : κ} {v : ν} :
    (m.retain p).get? k = some v ↔ m.get? k = some v ∧ p k v = true := by
  rw [← mem_entries, ← mem_entries]
  simp [retain, List.mem_filter]

@[simp] theorem get?_mapValues (m : IndexMap κ ν) (f : ν → ν) (k : κ) :
    (m.mapValues f).get? k = (m.get? k).map f := by
  have hl : ∀ l : List (κ × ν), lookup k (l.map fun e => (e.1, f e.2)) = (lookup k l).map f := by
    intro l
    induction l with
    | nil => rfl
    | cons e t ih =>
      simp only [List.map_cons, lookup, ih]
      split <;> rfl
  exact hl m.entries

@[simp] theorem contains_empty (k : κ) : (empty : IndexMap κ ν).contains k = false := rfl

@[simp] theorem contains_insert (m : IndexMap κ ν) (k k' : κ) (v : ν) :
    (m.insert k v).contains k' = (decide (k' = k) || m.contains k') := by
  by_cases h : k' = k <;> simp [contains, h]

@[simp] theorem contains_orInsert (m : IndexMap κ ν) (k k' : κ) (v : ν) :
    (m.orInsert k v).contains k' = (decide (k' = k) || m.contains k') := by
  by_cases h : k' = k <;> simp [contains, h]

@[simp] theorem contains_modify (m : IndexMap κ ν) (k k' : κ) (f : ν → ν) :
    (m.modify k f).contains k' = m.contains k' := by
  by_cases h : k' = k <;> simp [contains, h]

@[simp] theorem contains_swapRemove (m : IndexMap κ ν) (k k' : κ) :
    (m.swapRemove k).contains k' = (decide (k' ≠ k) && m.contains k') := by
  by_cases h : k' = k <;> simp [contains, h]

@[simp] theorem contains_retainKeys (m : IndexMap κ ν) (p : κ → Bool) (k : κ) :
    (m.retainKeys p).contains k = (p k && m.contains k) := by
  cases h : p k <;> simp [contains, h]

/-! ## 4. Entries as a bag -/

/-- Taking a known key out removes its entry and no other. -/
theorem swapRemove_entries_perm {m : IndexMap κ ν} {k : κ} {v : ν} (h : m.get? k = some v) :
    ((k, v) :: (m.swapRemove k).entries).Perm m.entries := by
  have hmem : (k, v) ∈ m.entries := (lookup_eq_some m.nodup).mp h
  have hfilter : m.entries.filter (fun e => e.1 = k) = [(k, v)] := by
    have hone : (m.entries.filter (fun e => e.1 = k)).Nodup :=
      (List.Nodup.of_map Prod.fst m.nodup).filter _
    have hsub : ∀ e ∈ m.entries.filter (fun e => e.1 = k), e = (k, v) := by
      intro e he
      obtain ⟨he, hk⟩ := List.mem_filter.mp he
      have hk : e.1 = k := of_decide_eq_true hk
      have hget : m.get? k = some e.2 := (lookup_eq_some m.nodup).mpr (hk ▸ he)
      exact Prod.ext hk (Option.some.inj (hget.symm.trans h))
    have hin : (k, v) ∈ m.entries.filter (fun e => e.1 = k) :=
      List.mem_filter.mpr ⟨hmem, decide_eq_true rfl⟩
    exact List.perm_singleton.mp ((List.perm_ext_iff_of_nodup hone (List.nodup_singleton _)).mpr
      fun e => ⟨fun he => List.mem_singleton.mpr (hsub e he), fun he => List.mem_singleton.mp he ▸ hin⟩)
  have hsplit := List.filter_append_perm (fun e : κ × ν => decide (e.1 = k)) m.entries
  rw [hfilter] at hsplit
  refine ((swapOut_perm m.nodup).cons _).trans (List.Perm.trans (List.Perm.of_eq ?_) hsplit)
  simp

/-- A value stored under one key only occurs once. -/
theorem count_values_eq_one [DecidableEq ν] {m : IndexMap κ ν} {k : κ} {v : ν} (h : m.get? k = some v)
    (honly : ∀ k', m.get? k' = some v → k' = k) : m.values.count v = 1 := by
  have hperm := (swapRemove_entries_perm h).map Prod.snd
  have hnone : v ∉ (m.swapRemove k).entries.map Prod.snd := by
    intro hv
    obtain ⟨⟨k', v'⟩, he, rfl⟩ := List.mem_map.mp hv
    have hget := mem_entries.mp he
    rw [get?_swapRemove] at hget
    split at hget
    · cases hget
    · rename_i hne
      exact hne (honly k' hget)
  rw [values, ← hperm.count_eq, List.map_cons, List.count_cons_self, List.count_eq_zero.mpr hnone]

/-- A new key goes to the end. -/
theorem insert_entries_of_not_contains {m : IndexMap κ ν} {k : κ} (h : m.contains k = false) (v : ν) :
    (m.insert k v).entries = m.entries ++ [(k, v)] := by
  have hput : ∀ l : List (κ × ν), k ∉ l.map Prod.fst → put k v l = l ++ [(k, v)] := by
    intro l
    induction l with
    | nil => exact fun _ => rfl
    | cons e t ih =>
      intro hk
      simp only [List.map_cons, List.mem_cons, not_or] at hk
      rw [put, if_neg (fun he => hk.1 he.symm), ih hk.2]
      rfl
  exact hput _ (lookup_eq_none.mp (contains_eq_false.mp h))

/-- A change of one value leaves the entries around it as they are. -/
theorem modify_split {m : IndexMap κ ν} {k : κ} {v : ν} (h : m.get? k = some v) :
    ∃ l₁ l₂, m.entries = l₁ ++ (k, v) :: l₂ ∧
      ∀ f : ν → ν, (m.modify k f).entries = l₁ ++ (k, f v) :: l₂ := by
  have hlist : ∀ l : List (κ × ν), lookup k l = some v → ∃ l₁ l₂, l = l₁ ++ (k, v) :: l₂ ∧
      ∀ f : ν → ν, update k f l = l₁ ++ (k, f v) :: l₂ := by
    intro l
    induction l with
    | nil => exact fun hl => by cases hl
    | cons e t ih =>
      obtain ⟨a, b⟩ := e
      intro hl
      by_cases he : a = k
      · rw [lookup, if_pos he] at hl
        cases hl
        cases he
        exact ⟨[], t, rfl, fun f => if_pos rfl⟩
      · rw [lookup, if_neg he] at hl
        obtain ⟨l₁, l₂, rfl, hf⟩ := ih hl
        refine ⟨(a, b) :: l₁, l₂, rfl, fun f => ?_⟩
        rw [update, if_neg he, hf]
        rfl
  exact hlist m.entries h

/-! ## 5. The order of the keys -/

omit [DecidableEq κ] in
theorem keys_nodup (m : IndexMap κ ν) : m.keys.Nodup := m.nodup

theorem contains_iff_mem_keys {m : IndexMap κ ν} {k : κ} : m.contains k = true ↔ k ∈ m.keys := by
  rw [contains_iff, mem_keys]

theorem keys_insert_of_not_mem {m : IndexMap κ ν} {k : κ} (h : k ∉ m.keys) (v : ν) :
    (m.insert k v).keys = m.keys ++ [k] := by
  have hno : m.contains k = false :=
    Bool.eq_false_iff.mpr fun hc => h (contains_iff_mem_keys.mp hc)
  simp [keys, insert_entries_of_not_contains hno]

omit [DecidableEq κ] in
theorem keys_retainKeys (m : IndexMap κ ν) (p : κ → Bool) :
    (m.retainKeys p).keys = m.keys.filter p := by
  simp only [keys, retainKeys, List.filter_map]
  rfl

/-- What `swap_remove` makes of the keys after the one it takes out: the last comes first. -/
def swapped (t : List κ) : List κ := t.getLast?.toList ++ t.dropLast

theorem keys_swapRemove {m : IndexMap κ ν} {k : κ} (h : k ∈ m.keys) :
    ∃ a t, m.keys = a ++ k :: t ∧ (m.swapRemove k).keys = a ++ swapped t := by
  have hout : ∀ l : List (κ × ν), k ∈ l.map Prod.fst → ∃ a t, l.map Prod.fst = a ++ k :: t
      ∧ (swapOut k l).map Prod.fst = a ++ swapped t := by
    intro l
    induction l with
    | nil => simp
    | cons e l ih =>
      intro hk
      by_cases he : e.1 = k
      · refine ⟨[], l.map Prod.fst, by simp [he], ?_⟩
        rw [swapOut, if_pos he, swapped, List.getLast?_map, List.nil_append, ← List.map_dropLast]
        rcases List.eq_nil_or_concat l with rfl | ⟨l, x, rfl⟩ <;> simp
      · obtain ⟨a, t, hl, hs⟩ := ih (by simpa [Ne.symm he] using hk)
        exact ⟨e.1 :: a, t, by simp [hl], by rw [swapOut, if_neg he, List.map_cons, hs]; rfl⟩
  exact hout m.entries h

theorem keys_swapRemove_of_not_mem {m : IndexMap κ ν} {k : κ} (h : k ∉ m.keys) :
    (m.swapRemove k).keys = m.keys := congrArg (List.map Prod.fst) (swapOut_of_not_mem h)

/-! ## 6. Totals -/

/-- The sum of a weight over all values. -/
def total (m : IndexMap κ ν) (w : ν → Nat) : Nat := (m.entries.map fun e => w e.2).sum

/-- A change of one value is the change of the total. -/
theorem total_modify {m : IndexMap κ ν} {k : κ} {v : ν} (h : m.get? k = some v) (f : ν → ν)
    (w : ν → Nat) : (m.modify k f).total w + w v = m.total w + w (f v) := by
  have hlist : ∀ l : List (κ × ν), lookup k l = some v →
      ((update k f l).map fun e => w e.2).sum + w v = (l.map fun e => w e.2).sum + w (f v) := by
    intro l
    induction l with
    | nil => exact fun hl => by cases hl
    | cons e t ih =>
      intro hl
      unfold lookup at hl
      unfold update
      split at hl
      · rename_i hk
        cases hl
        simp only [hk, if_true, List.map_cons, List.sum_cons]
        omega
      · rename_i hk
        have := ih hl
        simp only [hk, if_false, List.map_cons, List.sum_cons]
        omega
  exact hlist m.entries h

/-- A stored value adds at most its weight. -/
theorem total_insert_le (m : IndexMap κ ν) (k : κ) (v : ν) (w : ν → Nat) :
    (m.insert k v).total w ≤ m.total w + w v := by
  have hlist : ∀ l : List (κ × ν),
      ((put k v l).map fun e => w e.2).sum ≤ (l.map fun e => w e.2).sum + w v := by
    intro l
    induction l with
    | nil => simp [put]
    | cons e t ih =>
      unfold put
      split
      · simp only [List.map_cons, List.sum_cons]
        omega
      · simp only [List.map_cons, List.sum_cons]
        omega
  exact hlist m.entries

end IndexMap

end Turmoil
