/-
# The page cache and its order

`PageCache` keeps its pages in an `IndexSet`, the most recent one at the end, and gives up the first
one when it needs room.  A page that is touched is taken out and put in again at the end; but it is
taken out by `swap_remove`, which moves the LAST page, the most recent one, into the hole.  And a
page that is inserted again into a full cache makes the oldest page go, although it needs no room.

So the cache is the least-recently-used set of `Turmoil.Lru` along a run if, and only if, no call
touches a page that is followed by two others, or in a full cache any page but the oldest
(`page_cache_is_lru_iff`).
-/
import Turmoil.Lib.Lru
import Turmoil.Lib.Run
import Turmoil.Fs.State

namespace Turmoil.Fs

open IndexMap (swapped)

/-! ## 1. Runs of calls -/

/-- `(file path, page index)`. -/
abbrev PageKey := Path × Nat

/-- `PageCache::new`. -/
def PageCache.new (pageSize maxPages : Nat) : PageCache := ⟨IndexMap.empty, pageSize, maxPages⟩

def PageCache.key (c : PageCache) (path : Path) (offset : Nat) : PageKey :=
  (path, offset / c.pageSize)

inductive CacheOp where
  | access (path : Path) (offset : Nat)
  | insert (path : Path) (offset : Nat)
  | invalidateFile (path : Path)
  deriving DecidableEq, Repr

/-- A cache, the set it is meant to be, and whether every `access` had the same answer from both. -/
structure Beside where
  cache : PageCache
  lru : List PageKey
  same : Bool

namespace Beside

def new (pageSize maxPages : Nat) : Beside := ⟨PageCache.new pageSize maxPages, [], true⟩

/-- One call, without random evictions.  A call of `insert` that does not return changes nothing. -/
def step (b : Beside) : CacheOp → Beside
  | .access path offset =>
    let (cache, hit) := b.cache.access path offset false
    let (lru, there) := Lru.access (b.cache.key path offset) b.lru
    ⟨cache, lru, b.same && hit == there⟩
  | .insert path offset =>
    ⟨(b.cache.insert path offset).getD b.cache,
      Lru.insert b.cache.maxPages (b.cache.key path offset) b.lru, b.same⟩
  | .invalidateFile path =>
    ⟨b.cache.invalidateFile path, Lru.forget (fun k => k.1 = path) b.lru, b.same⟩

def run (b : Beside) (ops : List CacheOp) : Beside := runAll step b ops

/-- The cache is the set, in the order of the last use, and answered like it. -/
structure IsLru (b : Beside) : Prop where
  order : b.cache.pages.keys = b.lru
  answers : b.same

/-- The condition on a call. -/
def Promotes (b : Beside) : CacheOp → Prop
  | .access path offset =>
    b.cache.key path offset ∉ b.cache.pages.keys.take (b.cache.pages.keys.length - 2)
  | .insert path offset =>
    if b.cache.pages.keys.length < b.cache.maxPages then
      b.cache.key path offset ∉ b.cache.pages.keys.take (b.cache.pages.keys.length - 2)
    else b.cache.key path offset ∉ b.cache.pages.keys.tail
  | .invalidateFile _ => True

instance decidablePromotes (b : Beside) : ∀ op, Decidable (Promotes b op)
  | .access path offset => inferInstanceAs (Decidable
      (b.cache.key path offset ∉ b.cache.pages.keys.take (b.cache.pages.keys.length - 2)))
  | .insert path offset => inferInstanceAs (Decidable
      (if b.cache.pages.keys.length < b.cache.maxPages then
        b.cache.key path offset ∉ b.cache.pages.keys.take (b.cache.pages.keys.length - 2)
      else b.cache.key path offset ∉ b.cache.pages.keys.tail))
  | .invalidateFile _ => isTrue trivial

/-! ## 2. Taking a page out and putting it in again -/

/-- The last key moves to the front, which is where it is if it is the only one. -/
theorem swapped_eq_self_iff {t : List PageKey} (h : t.Nodup) : swapped t = t ↔ t.length ≤ 1 := by
  rcases List.eq_nil_or_concat t with rfl | ⟨t, x, rfl⟩
  · simp [swapped]
  · rw [List.concat_eq_append] at h ⊢
    rw [swapped, List.getLast?_concat, List.dropLast_concat]
    cases t with
    | nil => simp
    | cons y t =>
      have hne : x ≠ y := by
        rintro rfl
        simp at h
      simp [hne]

/-- What is put in last is at the end, wherever it was before. -/
theorem keys_promote (m : IndexMap PageKey Unit) (k : PageKey) :
    ((m.swapRemove k).insert k ()).keys = (m.swapRemove k).keys ++ [k] := by
  refine IndexMap.keys_insert_of_not_mem (fun hk => ?_) ()
  have hc := IndexMap.contains_iff_mem_keys.mpr hk
  simp at hc

/-- **A page that is touched** takes the right place exactly if at most one page follows it. -/
theorem promote_iff {m : IndexMap PageKey Unit} {k : PageKey} (hk : k ∈ m.keys) :
    ((m.swapRemove k).insert k ()).keys = Lru.touch k m.keys
      ↔ k ∉ m.keys.take (m.keys.length - 2) := by
  obtain ⟨a, t, hl, hs⟩ := IndexMap.keys_swapRemove hk
  have hnodup := m.keys_nodup
  rw [hl] at hnodup
  obtain ⟨-, hkt, hdis⟩ := List.nodup_append.mp hnodup
  have hka : k ∉ a := fun ha => hdis k ha k (by simp) rfl
  have hkt' : k ∉ t := (List.nodup_cons.mp hkt).1
  have htouch : Lru.touch k m.keys = a ++ t ++ [k] := by
    rw [hl, Lru.touch_append_cons hka]
  rw [keys_promote, htouch, hs, List.append_left_inj, List.append_right_inj,
    swapped_eq_self_iff (List.nodup_cons.mp hkt).2, hl]
  -- `k` stands at position `a.length`, and `t.length` keys follow it.
  have hmem : k ∈ (a ++ k :: t).take ((a ++ k :: t).length - 2) ↔ 2 ≤ t.length := by
    rw [List.take_append, List.mem_append]
    have hin : k ∉ a.take ((a ++ k :: t).length - 2) := fun h => hka (List.mem_of_mem_take h)
    simp only [hin, false_or]
    simp only [List.length_append, List.length_cons]
    rw [show a.length + (t.length + 1) - 2 - a.length = t.length - 1 by omega]
    rcases Nat.lt_or_ge t.length 2 with hlt | hge
    · simp [show t.length - 1 = 0 by omega, Nat.not_le.mpr hlt]
    · obtain ⟨n, hn⟩ := Nat.exists_eq_succ_of_ne_zero (show t.length - 1 ≠ 0 by omega)
      simp [hn, hge]
  rw [hmem]
  omega

/-- A page that is new goes to the end. -/
theorem promote_of_not_mem {m : IndexMap PageKey Unit} {k : PageKey} (hk : k ∉ m.keys) :
    ((m.swapRemove k).insert k ()).keys = m.keys ++ [k] := by
  rw [keys_promote, IndexMap.keys_swapRemove_of_not_mem hk]

/-- **Room for one page:** a full cache loses its first page, any other nothing. -/
theorem keys_evictOldest {max : Nat} {pages : IndexMap PageKey Unit} (hmax : 1 ≤ max)
    (hlen : pages.keys.length ≤ max) :
    (PageCache.evictOldest max pages.keys.length pages).keys
      = if pages.keys.length < max then pages.keys else pages.keys.tail := by
  split
  · rename_i hlt
    cases hn : pages.keys.length with
    | zero => rfl
    | succ n => rw [PageCache.evictOldest, if_pos hlt]
  · rename_i hfull
    cases hkeys : pages.keys with
    | nil => simp [hkeys] at hfull; omega
    | cons key rest =>
      have hnodup := pages.keys_nodup
      rw [hkeys] at hnodup
      have hrest : (pages.shiftRemove key).keys = rest := by
        rw [IndexMap.shiftRemove, IndexMap.keys_retainKeys, hkeys]
        simp only [ne_eq, decide_not, List.filter_cons, decide_true, Bool.not_true,
          Bool.false_eq_true, if_false]
        refine List.filter_eq_self.mpr fun a ha => ?_
        simpa using fun he : a = key => (List.nodup_cons.mp hnodup).1 (he ▸ ha)
      have hlt : (pages.shiftRemove key).keys.length < max := by
        rw [hrest]
        simp [hkeys] at hlen
        omega
      rw [List.length_cons, PageCache.evictOldest, if_neg hfull, hkeys]
      show (PageCache.evictOldest max rest.length (pages.shiftRemove key)).keys = rest
      cases hn : rest.length with
      | zero => exact hrest
      | succ n => rw [PageCache.evictOldest, if_pos hlt, hrest]

/-! ## 3. One call -/

/-- The cache is the set, and has not outgrown its bound. -/
structure Sound (maxPages : Nat) (b : Beside) : Prop where
  isLru : IsLru b
  max : b.cache.maxPages = maxPages
  room : b.cache.pages.keys.length ≤ maxPages

variable {maxPages : Nat} {b : Beside}

theorem step_maxPages (b : Beside) (op : CacheOp) :
    (b.step op).cache.maxPages = b.cache.maxPages := by
  cases op with
  | access path offset =>
    simp only [step, PageCache.access]
    split <;> (try split) <;> rfl
  | insert path offset =>
    simp only [step, PageCache.insert]
    split <;> rfl
  | invalidateFile path => rfl

/-- What `access` does with a page that is there, and with one that is not. -/
theorem access_hit {c : PageCache} {path : Path} {offset : Nat}
    (h : c.key path offset ∈ c.pages.keys) :
    c.access path offset false
      = ({ c with
          pages := (c.pages.swapRemove (c.key path offset)).insert (c.key path offset) () },
        true) := by
  have hc := IndexMap.contains_iff_mem_keys.mpr h
  rw [PageCache.key] at hc
  simp [PageCache.access, PageCache.key, hc]

theorem access_miss {c : PageCache} {path : Path} {offset : Nat}
    (h : c.key path offset ∉ c.pages.keys) : c.access path offset false = (c, false) := by
  have hc : c.pages.contains (c.key path offset) = false :=
    Bool.eq_false_iff.mpr fun hc => h (IndexMap.contains_iff_mem_keys.mp hc)
  rw [PageCache.key] at hc
  simp [PageCache.access, hc]

/-- What `insert` does: it makes room for one page, and puts the page in at the end. -/
theorem insert_spec {c : PageCache} (hmax : 1 ≤ c.maxPages)
    (hroom : c.pages.keys.length ≤ c.maxPages) (path : Path) (offset : Nat) :
    ∃ m : IndexMap PageKey Unit,
      c.insert path offset = some { c with
        pages := (m.swapRemove (c.key path offset)).insert (c.key path offset) () }
      ∧ m.keys = if c.pages.keys.length < c.maxPages then c.pages.keys else c.pages.keys.tail :=
  ⟨PageCache.evictOldest c.maxPages c.pages.keys.length c.pages,
    by rw [PageCache.insert, if_neg (Nat.one_le_iff_ne_zero.mp hmax)]; rfl,
    keys_evictOldest hmax hroom⟩

/-- How many pages there are after a page has been put in. -/
theorem length_promote (m : IndexMap PageKey Unit) (k : PageKey) :
    ((m.swapRemove k).insert k ()).keys.length
      = if k ∈ m.keys then m.keys.length else m.keys.length + 1 := by
  split
  · rename_i hk
    obtain ⟨a, t, hl, hs⟩ := IndexMap.keys_swapRemove hk
    have ht : (swapped t).length = t.length := by
      rcases List.eq_nil_or_concat t with rfl | ⟨t, x, rfl⟩ <;> simp [swapped]
    simp [keys_promote, hs, hl, ht]
  · rename_i hk
    simp [promote_of_not_mem hk]

theorem step_room (hmax : 1 ≤ b.cache.maxPages)
    (h : b.cache.pages.keys.length ≤ b.cache.maxPages) (op : CacheOp) :
    (b.step op).cache.pages.keys.length ≤ b.cache.maxPages := by
  cases op with
  | access path offset =>
    by_cases hk : b.cache.key path offset ∈ b.cache.pages.keys
    · simp only [step, access_hit hk]
      rw [length_promote, if_pos hk]
      exact h
    · simp only [step, access_miss hk]
      exact h
  | insert path offset =>
    obtain ⟨m, hins, hkeys⟩ := insert_spec hmax h path offset
    simp only [step, hins, Option.getD_some]
    rw [length_promote, hkeys]
    simp only [apply_ite List.length, List.length_tail]
    split <;> split <;> omega
  | invalidateFile path =>
    simp only [step, PageCache.invalidateFile, IndexMap.keys_retainKeys]
    exact Nat.le_trans (List.length_filter_le _ _) h

/-- **A page that is put in** is in the right place: with room, as for one that is touched; in a
full cache, unless the page was there and is not the one that had to go. -/
theorem insert_order_iff {m m' : IndexMap PageKey Unit} {max : Nat} {k : PageKey} (hmax : 1 ≤ max)
    (hroom : m.keys.length ≤ max)
    (hm : m'.keys = if m.keys.length < max then m.keys else m.keys.tail) :
    ((m'.swapRemove k).insert k ()).keys = Lru.insert max k m.keys
      ↔ if m.keys.length < max then k ∉ m.keys.take (m.keys.length - 2) else k ∉ m.keys.tail := by
  rw [Lru.insert]
  by_cases hlt : m.keys.length < max
  · rw [if_pos hlt] at hm
    simp only [hlt, if_true]
    rw [← hm]
    split
    · rename_i hk
      exact promote_iff hk
    · rename_i hk
      exact iff_of_true (promote_of_not_mem hk) fun h => hk (List.mem_of_mem_take h)
  · rw [if_neg hlt] at hm
    simp only [hlt, if_false]
    by_cases hk : k ∈ m.keys.tail
    · refine iff_of_false (fun he => ?_) (not_not.mpr hk)
      -- The oldest page is gone, and nothing came for it.
      have hlen := congrArg List.length he
      have hin := List.mem_of_mem_tail hk
      rw [length_promote, hm, if_pos hk, if_pos hin, Lru.length_touch hin, List.length_tail] at hlen
      omega
    · refine iff_of_true ?_ hk
      rw [promote_of_not_mem (by rw [hm]; exact hk), hm]
      split
      · rename_i hin
        obtain ⟨x, rest, hkeys⟩ := List.exists_cons_of_ne_nil (List.ne_nil_of_mem hin)
        rw [hkeys] at hin hk ⊢
        obtain rfl : k = x := (List.mem_cons.mp hin).resolve_right hk
        exact (Lru.touch_append_cons (a := []) List.not_mem_nil).symm
      · rfl

/-- **One call** keeps the cache the set exactly if it meets its condition. -/
theorem Sound.step_iff (hmax : 1 ≤ maxPages) (h : Sound maxPages b) (op : CacheOp) :
    Sound maxPages (b.step op) ↔ Promotes b op := by
  obtain ⟨⟨horder, hanswers⟩, rfl, hroom⟩ := h
  have hroom' := step_room hmax hroom op
  have hsound : Sound b.cache.maxPages (b.step op) ↔ IsLru (b.step op) :=
    ⟨fun hs => hs.isLru, fun hs => ⟨hs, step_maxPages b op, hroom'⟩⟩
  rw [hsound]
  cases op with
  | access path offset =>
    rw [Promotes]
    by_cases hk : b.cache.key path offset ∈ b.cache.pages.keys
    · have hl : b.cache.key path offset ∈ b.lru := horder ▸ hk
      rw [← promote_iff hk, horder]
      constructor
      · intro hlru
        simpa only [step, access_hit hk, Lru.access, if_pos hl] using hlru.order
      · intro ho
        constructor
        · simpa only [step, access_hit hk, Lru.access, if_pos hl] using ho
        · simp only [step, access_hit hk, Lru.access, if_pos hl, hanswers]
          rfl
    · have hl : b.cache.key path offset ∉ b.lru := horder ▸ hk
      refine iff_of_true ⟨?_, ?_⟩ fun hm => hk (List.mem_of_mem_take hm)
      · simpa only [step, access_miss hk, Lru.access, if_neg hl] using horder
      · simp only [step, access_miss hk, Lru.access, if_neg hl, hanswers]
        rfl
  | insert path offset =>
    obtain ⟨m, hins, hkeys⟩ := insert_spec hmax hroom path offset
    rw [Promotes, ← insert_order_iff hmax hroom hkeys, horder]
    constructor
    · intro hlru
      simpa only [step, hins, Option.getD_some] using hlru.order
    · intro ho
      exact ⟨by simpa only [step, hins, Option.getD_some] using ho, hanswers⟩
  | invalidateFile path =>
    refine iff_of_true ⟨?_, hanswers⟩ trivial
    simp [step, PageCache.invalidateFile, IndexMap.keys_retainKeys, Lru.forget, horder]

/-! ## 4. Whole runs -/

theorem run_new_room {pageSize maxPages : Nat} (hmax : 1 ≤ maxPages) (ops : List CacheOp) :
    (run (new pageSize maxPages) ops).cache.maxPages = maxPages
      ∧ (run (new pageSize maxPages) ops).cache.pages.keys.length ≤ maxPages := by
  have hinv : ∀ (ops : List CacheOp) (b : Beside), b.cache.maxPages = maxPages →
      b.cache.pages.keys.length ≤ maxPages → (run b ops).cache.maxPages = maxPages
        ∧ (run b ops).cache.pages.keys.length ≤ maxPages := by
    intro ops
    induction ops with
    | nil => exact fun b hm hr => ⟨hm, hr⟩
    | cons op ops ih =>
      rintro b rfl hr
      exact ih (b.step op) (step_maxPages b op) (step_room hmax hr op)
  exact hinv ops _ rfl (Nat.zero_le _)

end Beside

/-- **The page cache is the least-recently-used set** along a run, exactly if no call touches a
page that two others follow, or in a full cache puts in a page that is there and is not the oldest.
(With pages of size 0 the calls divide by zero.) -/
theorem page_cache_is_lru_iff {pageSize maxPages : Nat} (_hsize : 0 < pageSize)
    (hmax : 1 ≤ maxPages) (ops : List CacheOp) :
    (∀ pre, pre <+: ops → Beside.IsLru (Beside.run (Beside.new pageSize maxPages) pre))
      ↔ Along Beside.step Beside.Promotes (Beside.new pageSize maxPages) ops := by
  have hstart : Beside.Sound maxPages (Beside.new pageSize maxPages) :=
    ⟨⟨rfl, rfl⟩, rfl, Nat.zero_le _⟩
  have hstep : ∀ b op, Beside.Sound maxPages b →
      (Beside.Sound maxPages (b.step op) ↔ b.Promotes op) :=
    fun _ op h => Beside.Sound.step_iff hmax h op
  rw [← along_iff hstep ops hstart]
  refine forall₂_congr fun pre _ => ?_
  obtain ⟨hm, hr⟩ := @Beside.run_new_room pageSize maxPages hmax pre
  exact ⟨fun h => ⟨h, hm, hr⟩, fun h => h.isLru⟩

/-- Calls on the pages of a file `f`. -/
def insertPage (n : Nat) : CacheOp := .insert (Path.abs ["f"]) (4096 * n)
def accessPage (n : Nat) : CacheOp := .access (Path.abs ["f"]) (4096 * n)

/-- Two pages in a cache of two: the older one is touched, and the other one goes. -/
theorem page_cache_is_lru_small :
    Beside.IsLru (Beside.run (Beside.new 4096 2)
      [insertPage 0, insertPage 1, accessPage 0, insertPage 2]) :=
  (@page_cache_is_lru_iff 4096 2 (by decide) (by decide)
    [insertPage 0, insertPage 1, accessPage 0, insertPage 2]).mpr
    ⟨by decide, by decide, by decide, by decide, trivial⟩ _ List.prefix_rfl

/-- **Three pages, of which the first is touched:** the next to go should be the second, and it is
the third. -/
theorem touched_page_moves_the_last :
    ¬ ∀ (pageSize maxPages : Nat), 0 < pageSize → 1 ≤ maxPages → ∀ ops,
      Beside.IsLru (Beside.run (Beside.new pageSize maxPages) ops) := by
  intro h
  have horder := (h 4096 3 (by decide) (by decide)
    [insertPage 0, insertPage 1, insertPage 2, accessPage 0, insertPage 3]).order
  revert horder
  decide

end Turmoil.Fs
