/-
# When a synced file survives

`sync_file` on a file, then `sync_dir` on its parent and on every directory above it: that
should be enough for the file to survive a crash with the bytes it showed.  It is, in two
situations, and the rest of the module is about why these two:

* the file's bytes and its entry are its OWN: nothing was removed at the path, moved from it or
  onto it or linked there since the last flush, so `sync_file` stores the visible bytes and no
  flushed operation touches the inode afterwards;
* the file is ARRIVING from another name: a pending rename or hard link takes it, unchanged,
  from a name whose bytes are stored already, and the flush that carries this out is the one of
  the file's own directory.

What is left out loses bytes or the whole file: bytes recorded under a name the file had before
a rename, an inode that a flushed removal deletes after `sync_file` wrote it, a rename across
directories that is flushed from its source side (which never records the new entry), and bytes
that were truncated and grown over again.
-/
import Turmoil.Fs.Readers
import Turmoil.Fs.History

namespace Turmoil.Fs

/-- The paths whose own entry or inode an operation changes.  A hard link's target is not one of
them: only its link count changes. -/
def PendingOp.touches : PendingOp → List Path
  | .createFile p _ _ => [p]
  | .createDir p _ _ => [p]
  | .createSymlink p _ _ => [p]
  | .createHardLink p _ _ => [p]
  | .rename src dst => [src, dst]
  | .removeFile p => [p]
  | .removeDir p => [p]
  | _ => []

/-- An operation leaves the kind of what it does not touch alone. -/
theorem kindStep_untouched {p : Path} {op : PendingOp} (h : p ∉ op.touches)
    (m : Path → Option EntryKind) : kindStep m op p = m p := by
  cases op with
  | rename src dst =>
    have hq : p ≠ src ∧ p ≠ dst := by simpa [PendingOp.touches] using h
    simp [kindStep, hq.1.symm, hq.2.symm]
  | write => rfl
  | setLen => rfl
  | setPermissions => rfl
  | _ =>
    have hq := List.ne_of_not_mem_cons h
    simp [kindStep, hq.symm]

namespace FsState

/-! ## 1. Inodes and entries through a flush -/

/-- The bytes of the inode at a path, if there is one. -/
def storedAt (s : FsState) (p : Path) : Option (List UInt8) :=
  (s.persistedFiles.get? p).map (·.content)

theorem storedContent_of_storedAt {s : FsState} {p : Path} {c : List UInt8}
    (h : s.storedAt p = some c) : s.storedContent p = c := by
  rw [storedContent]
  exact congrArg (·.getD []) h

/-- An operation that does not touch a path leaves its inode's bytes alone. -/
theorem applyOp_storedAt {s : FsState} {op : PendingOp} {p : Path} (ht : p ∉ op.touches)
    (hd : isDataOf p op = false) : (s.applyOpToPersisted op).storedAt p = s.storedAt p := by
  cases op with
  | createFile q time mode =>
    have hq : ¬ p = q := by simpa [PendingOp.touches] using ht
    simp [applyOpToPersisted, storedAt, hq]
  | createDir q time mode => rfl
  | createSymlink q target time => rfl
  | createHardLink q target time =>
    have hq : ¬ p = q := by simpa [PendingOp.touches] using ht
    simp only [applyOpToPersisted]
    split
    · rfl
    · by_cases hp : p = target
      · subst hp
        cases hg : s.persistedFiles.get? p <;> simp [storedAt, hq, hg]
      · simp [storedAt, hq, hp]
  | write q offset data time =>
    have hq : ¬ p = q := fun e => by simp [isDataOf, e] at hd
    simp [applyOpToPersisted, storedAt, hq]
  | setLen q len time =>
    have hq : ¬ p = q := fun e => by simp [isDataOf, e] at hd
    simp [applyOpToPersisted, storedAt, hq]
  | setPermissions q mode time =>
    simp only [applyOpToPersisted]
    split
    · by_cases hp : p = q
      · subst hp
        cases hg : s.persistedFiles.get? p <;> simp [storedAt, hg]
      · simp [storedAt, hp]
    · rfl
  | rename src dst =>
    have hq : ¬ p = src ∧ ¬ p = dst := by simpa [PendingOp.touches] using ht
    simp only [applyOpToPersisted]
    split
    · simp [storedAt, hq.1, hq.2]
    · split
      · rfl
      · split <;> rfl
  | removeFile q =>
    have hq : ¬ p = q := by simpa [PendingOp.touches] using ht
    simp [applyOpToPersisted, storedAt, hq]
  | removeDir q => rfl

theorem foldl_applyOp_storedAt {p : Path} {log : List PendingOp}
    (h : ∀ op ∈ log, p ∉ op.touches ∧ isDataOf p op = false) :
    ∀ {s : FsState}, (log.foldl applyOpToPersisted s).storedAt p = s.storedAt p := by
  induction log with
  | nil =>
    intro s
    rfl
  | cons op log ih =>
    intro s
    rw [List.foldl_cons, ih (fun o ho => h o (List.mem_cons_of_mem _ ho)),
      applyOp_storedAt (h op List.mem_cons_self).1 (h op List.mem_cons_self).2]

/-- What flushing an operation does to the durability of one entry, if it lies in the synced
directory. -/
def entryStep (p : Path) (b : Bool) : PendingOp → Bool
  | .createFile q _ _ => if q = p then true else b
  | .createDir q _ _ => if q = p then true else b
  | .createSymlink q _ _ => if q = p then true else b
  | .createHardLink q _ _ => if q = p then true else b
  | .removeFile q => if q = p then false else b
  | .removeDir q => if q = p then false else b
  | .rename src dst => if dst = p then true else if src = p then false else b
  | _ => b

theorem entryStep_untouched {p : Path} {op : PendingOp} (h : p ∉ op.touches) (b : Bool) :
    entryStep p b op = b := by
  cases op with
  | rename src dst =>
    have hq : p ≠ src ∧ p ≠ dst := by simpa [PendingOp.touches] using h
    simp [entryStep, hq.1.symm, hq.2.symm]
  | write => rfl
  | setLen => rfl
  | setPermissions => rfl
  | _ =>
    have hq := List.ne_of_not_mem_cons h
    simp [entryStep, hq.symm]

theorem foldl_entryStep_untouched {p : Path} {log : List PendingOp}
    (h : ∀ op ∈ log, p ∉ op.touches) (b : Bool) : log.foldl (entryStep p) b = b := by
  induction log with
  | nil => rfl
  | cons op log ih =>
    rw [List.foldl_cons, entryStep_untouched (h op List.mem_cons_self)]
    exact ih fun o ho => h o (List.mem_cons_of_mem _ ho)

/-- A sync of the parent directory keeps the books of an entry. -/
theorem syncEntry_of_parent {p d : Path} (hp : p.parent = some d) (entries : IndexMap Path Unit)
    (op : PendingOp) :
    (syncEntry d entries op).contains p = entryStep p (entries.contains p) op := by
  cases op with
  | createDir q time mode =>
    by_cases hq : q = p
    · subst hq
      simp [syncEntry, entryStep, hp]
    · simp only [syncEntry, entryStep, hq, if_false]
      split
      · simp [Ne.symm hq]
      · rfl
  | rename src dst =>
    by_cases hd : dst = p
    · subst hd
      simp [syncEntry, entryStep, hp]
    · by_cases hs : src = p
      · subst hs
        simp only [syncEntry, entryStep, hp, if_true, hd, if_false]
        split <;> simp [Ne.symm hd]
      · simp only [syncEntry, entryStep, hd, hs, if_false]
        split <;> split <;> simp [Ne.symm hd, Ne.symm hs]
  | createFile q time mode =>
    by_cases hq : q = p
    · subst hq
      simp [syncEntry, entryStep, hp]
    · simp only [syncEntry, entryStep, hq, if_false]
      split <;> simp [Ne.symm hq]
  | createSymlink q target time =>
    by_cases hq : q = p
    · subst hq
      simp [syncEntry, entryStep, hp]
    · simp only [syncEntry, entryStep, hq, if_false]
      split <;> simp [Ne.symm hq]
  | createHardLink q target time =>
    by_cases hq : q = p
    · subst hq
      simp [syncEntry, entryStep, hp]
    · simp only [syncEntry, entryStep, hq, if_false]
      split <;> simp [Ne.symm hq]
  | removeFile q =>
    by_cases hq : q = p
    · subst hq
      simp [syncEntry, entryStep, hp]
    · simp only [syncEntry, entryStep, hq, if_false]
      split <;> simp [Ne.symm hq]
  | removeDir q =>
    by_cases hq : q = p
    · subst hq
      simp [syncEntry, entryStep, hp]
    · simp only [syncEntry, entryStep, hq, if_false]
      split <;> simp [Ne.symm hq]
  | _ => rfl

theorem foldl_syncEntry_of_parent {p d : Path} (hp : p.parent = some d) (log : List PendingOp) :
    ∀ entries : IndexMap Path Unit, (log.foldl (syncEntry d) entries).contains p
      = log.foldl (entryStep p) (entries.contains p) := by
  induction log with
  | nil => exact fun _ => rfl
  | cons op log ih =>
    intro entries
    rw [List.foldl_cons, List.foldl_cons, ih, syncEntry_of_parent hp]

/-- A flushed operation that does not touch a path leaves its entry alone, in any directory. -/
theorem syncEntry_untouched {p d : Path} {op : PendingOp} (h : p ∉ op.touches)
    (entries : IndexMap Path Unit) : (syncEntry d entries op).contains p = entries.contains p := by
  cases op with
  | rename src dst =>
    have hq : ¬ p = src ∧ ¬ p = dst := by simpa [PendingOp.touches] using h
    simp only [syncEntry]
    split <;> split <;> simp [hq.1, hq.2]
  | write => rfl
  | setLen => rfl
  | setPermissions => rfl
  | _ =>
    simp only [PendingOp.touches, List.mem_singleton] at h
    simp only [syncEntry]
    split <;> simp [h]

theorem foldl_syncEntry_untouched {p d : Path} {log : List PendingOp}
    (h : ∀ op ∈ log, p ∉ op.touches) : ∀ entries : IndexMap Path Unit,
      (log.foldl (syncEntry d) entries).contains p = entries.contains p := by
  induction log with
  | nil => exact fun _ => rfl
  | cons op log ih =>
    intro entries
    rw [List.foldl_cons, ih (fun o ho => h o (List.mem_cons_of_mem _ ho)),
      syncEntry_untouched (h op List.mem_cons_self)]

/-! ## 2. Saved files -/

/-- The file is safe: its inode holds `c`, its entry is durable, and nothing pending touches
it. -/
structure Saved (s : FsState) (p : Path) (c : List UInt8) : Prop where
  stored : s.storedAt p = some c
  entry : s.syncedEntries.contains p = true
  quiet : ∀ op ∈ s.pending, p ∉ op.touches

/-- The outcome of a successful `sync_dir`, as far as one path is concerned. -/
theorem syncDir_at {s : FsState} {d : Path} (hex : s.dirExists d = true) (time : Duration)
    (p : Path) :
    (s.syncDir d time).1.storedAt p = ((s.dirFlush d).foldl applyOpToPersisted s).storedAt p
      ∧ (s.syncDir d time).1.syncedEntries = (s.dirFlush d).foldl (syncEntry d) s.syncedEntries
      ∧ (s.syncDir d time).1.pending = s.dirKeep d
      ∧ (s.syncDir d time).1.blockSize = s.blockSize := by
  obtain ⟨dirs, heq, -⟩ := syncDir_spec hex time
  rw [heq]
  refine ⟨rfl, rfl, rfl, ?_⟩
  obtain ⟨files, dirs', links, hf⟩ := foldl_applyOp_eq (s.dirFlush d) s
  rw [hf]

theorem not_touches_of_isDataOf {p q : Path} {op : PendingOp} (h : isDataOf p op = true) :
    q ∉ op.touches := by
  cases op <;> simp [isDataOf] at h <;> simp [PendingOp.touches]

theorem not_data_of_flushed {s : FsState} {d p : Path} {op : PendingOp} (h : op ∈ s.dirFlush d) :
    isDataOf p op = false := by
  have haff := (List.mem_filter.mp h).2
  cases op <;> simp_all [isDataOf, affectsDir]

theorem Saved.syncDir {s : FsState} {p d : Path} {c : List UInt8} (h : s.Saved p c)
    (hex : s.dirExists d = true) (time : Duration) : (s.syncDir d time).1.Saved p c := by
  obtain ⟨h1, h2, h3, -⟩ := syncDir_at hex time p
  have hquiet : ∀ op ∈ s.dirFlush d, p ∉ op.touches :=
    fun op hop => h.quiet op (List.mem_filter.mp hop).1
  refine ⟨?_, ?_, ?_⟩
  · rw [h1, foldl_applyOp_storedAt fun op hop => ⟨hquiet op hop, not_data_of_flushed hop⟩]
    exact h.stored
  · rw [h2, foldl_syncEntry_untouched hquiet]
    exact h.entry
  · rw [h3]
    exact fun op hop => h.quiet op (List.mem_filter.mp hop).1

/-- **An inode with a durable entry survives a crash.** -/
theorem crash_saves {s : FsState} {p : Path} {c : List UInt8} (hs : s.storedAt p = some c)
    (he : s.syncedEntries.contains p = true) (hb : s.blockSize = none) (surviving : Nat → Nat) :
    (s.crash surviving).entryKind p = some .file ∧ (s.crash surviving).content p = some c := by
  have hpend : (s.crash surviving).pending = [] := by simp [FsState.crash]
  have hstored : (s.crash surviving).storedAt p = some c := by
    simpa [FsState.crash, hb, storedAt, he] using hs
  refine ⟨?_, ?_⟩
  · rw [entryKind_of_untouched (by simp [hpend]), persistedKind_eq_file, IndexMap.contains_iff]
    obtain ⟨f, hf, -⟩ := Option.map_eq_some_iff.mp hstored
    exact ⟨f, hf⟩
  · rw [content_of_pending_nil hpend, storedContent_of_storedAt hstored]

/-! ## 3. Files with their own inode -/

/-- No removal, rename or hard link at `p`. -/
def keepsInode (p : Path) : PendingOp → Prop
  | .removeFile q => q ≠ p
  | .createHardLink q _ _ => q ≠ p
  | .rename src dst => src ≠ p ∧ dst ≠ p
  | _ => True

/-- The file's inode holds `c`, nothing pending replaces it, and the flush of its directory
makes its entry durable. -/
structure Own (s : FsState) (p : Path) (c : List UInt8) : Prop where
  stored : s.storedAt p = some c
  calm : ∀ op ∈ s.pending, keepsInode p op
  entry : s.pending.foldl (entryStep p) (s.syncedEntries.contains p) = true
  rooted : p.parent = none → s.syncedEntries.contains p = true

/-- Operations that keep the inode keep its bytes. -/
theorem applyOp_keepsInode {s : FsState} {p : Path} {c : List UInt8} {op : PendingOp}
    (hk : keepsInode p op) (hd : isDataOf p op = false) (h : s.storedAt p = some c) :
    (s.applyOpToPersisted op).storedAt p = some c := by
  by_cases ht : p ∈ op.touches
  · cases op with
    | createFile q time mode =>
      obtain rfl : p = q := by simpa [PendingOp.touches] using ht
      obtain ⟨f, hf, rfl⟩ := Option.map_eq_some_iff.mp h
      simp [applyOpToPersisted, storedAt, hf]
    | createDir q time mode => exact h
    | createSymlink q target time => exact h
    | removeDir q => exact h
    | rename src dst =>
      obtain ⟨h1, h2⟩ := hk
      simp [PendingOp.touches, Ne.symm h1, Ne.symm h2] at ht
    | _ => simp_all [PendingOp.touches, keepsInode]
  · rw [applyOp_storedAt ht hd]
    exact h

theorem foldl_applyOp_keepsInode {p : Path} {c : List UInt8} {log : List PendingOp}
    (hlog : ∀ op ∈ log, keepsInode p op ∧ isDataOf p op = false) :
    ∀ {s : FsState}, s.storedAt p = some c →
      (log.foldl applyOpToPersisted s).storedAt p = some c := by
  induction log with
  | nil => exact fun h => h
  | cons op log ih =>
    intro s h
    obtain ⟨hk, hd⟩ := hlog op List.mem_cons_self
    exact ih (fun o ho => hlog o (List.mem_cons_of_mem _ ho)) (applyOp_keepsInode hk hd h)

/-- An operation at `p` that keeps the inode is flushed with `p`'s directory, and only there. -/
theorem affectsDir_of_keepsInode {p d : Path} {op : PendingOp} (hk : keepsInode p op)
    (ht : p ∈ op.touches) (hd : d ≠ p) : affectsDir d op = decide (p.parent = some d) := by
  cases op with
  | createFile q time mode =>
    obtain rfl : p = q := by simpa [PendingOp.touches] using ht
    rfl
  | createDir q time mode =>
    obtain rfl : p = q := by simpa [PendingOp.touches] using ht
    simp [affectsDir, Ne.symm hd]
  | createSymlink q target time =>
    obtain rfl : p = q := by simpa [PendingOp.touches] using ht
    rfl
  | removeDir q =>
    obtain rfl : p = q := by simpa [PendingOp.touches] using ht
    rfl
  | rename src dst =>
    obtain ⟨h1, h2⟩ := hk
    simp [PendingOp.touches, Ne.symm h1, Ne.symm h2] at ht
  | _ => simp_all [PendingOp.touches, keepsInode]

/-- A sync of its directory saves the file; any other sync leaves it as it was. -/
theorem Own.syncDir {s : FsState} {p d : Path} {c : List UInt8} (h : s.Own p c)
    (hex : s.dirExists d = true) (hd : d ≠ p) (time : Duration) :
    if p.parent = some d then (s.syncDir d time).1.Saved p c else (s.syncDir d time).1.Own p c := by
  obtain ⟨h1, h2, h3, -⟩ := syncDir_at hex time p
  have hcalm : ∀ op ∈ s.dirFlush d, keepsInode p op :=
    fun op hop => h.calm op (List.mem_filter.mp hop).1
  have hstored : (s.syncDir d time).1.storedAt p = some c := by
    rw [h1]
    exact foldl_applyOp_keepsInode (fun op hop => ⟨hcalm op hop, not_data_of_flushed hop⟩) h.stored
  -- the operations at `p` are the flushed ones, or none of them is
  have hside : ∀ op ∈ s.pending, affectsDir d op ≠ decide (p.parent = some d) → p ∉ op.touches :=
    fun op hop hne ht => hne (affectsDir_of_keepsInode (h.calm op hop) ht hd)
  split
  · rename_i hpar
    have hkeep : ∀ op ∈ s.dirKeep d, p ∉ op.touches := by
      intro op hop
      obtain ⟨hm, hno⟩ := List.mem_filter.mp hop
      refine hside op hm ?_
      simpa [hpar] using hno
    refine ⟨hstored, ?_, by rw [h3]; exact hkeep⟩
    rw [h2, foldl_syncEntry_of_parent hpar, ← h.entry]
    exact foldl_filter_skip (fun op hop ha b =>
      entryStep_untouched (hside op hop (by simp [ha, hpar])) b) _
  · rename_i hpar
    have hflush : ∀ op ∈ s.dirFlush d, p ∉ op.touches := by
      intro op hop
      obtain ⟨hm, ha⟩ := List.mem_filter.mp hop
      exact hside op hm (by simp [ha, hpar])
    have hE : (s.syncDir d time).1.syncedEntries.contains p = s.syncedEntries.contains p := by
      rw [h2, foldl_syncEntry_untouched hflush]
    refine ⟨hstored, ?_, ?_, ?_⟩
    · rw [h3]
      exact fun op hop => h.calm op (List.mem_filter.mp hop).1
    · rw [h3, hE]
      refine (foldl_filter_skip (fun op hop ha b => entryStep_untouched ?_ b) _).trans h.entry
      exact hflush op (List.mem_filter.mpr ⟨hop, by simpa using ha⟩)
    · rw [hE]
      exact h.rooted

/-! ## 4. Files arriving from another name -/

/-- The pending operation puts the file stored at `a` at `p`. -/
def brings (a p : Path) : PendingOp → Prop
  | .rename src dst => src = a ∧ dst = p
  | .createHardLink q target _ => q = p ∧ target = a
  | _ => False

/-- `c` is stored at `a`, one pending operation brings it to `p`, and no other pending operation
touches either name. -/
structure Arriving (s : FsState) (a p : Path) (c : List UInt8) : Prop where
  ne : a ≠ p
  stored : s.storedAt a = some c
  queue : ∃ l₁ o l₂, s.pending = l₁ ++ o :: l₂ ∧ brings a p o
    ∧ ∀ op ∈ l₁ ++ l₂, a ∉ op.touches ∧ p ∉ op.touches

/-- Carrying out the operation stores the bytes at `p`. -/
theorem applyOp_brings {s : FsState} {a p : Path} {c : List UInt8} {o : PendingOp}
    (ho : brings a p o) (h : s.storedAt a = some c) :
    (s.applyOpToPersisted o).storedAt p = some c := by
  obtain ⟨f, hf, rfl⟩ := Option.map_eq_some_iff.mp h
  cases o with
  | rename src dst =>
    obtain ⟨rfl, rfl⟩ := ho
    simp [applyOpToPersisted, hf, storedAt]
  | createHardLink q target time =>
    obtain ⟨rfl, rfl⟩ := ho
    simp [applyOpToPersisted, hf, storedAt]
  | _ => exact absurd ho id

theorem entryStep_brings {a p : Path} {o : PendingOp} (ho : brings a p o) (b : Bool) :
    entryStep p b o = true := by
  cases o with
  | rename src dst => simp [entryStep, ho.2]
  | createHardLink q target time => simp [entryStep, ho.1]
  | _ => exact absurd ho id

/-- The directories whose sync carries the operation out. -/
theorem affectsDir_brings {a p d : Path} {o : PendingOp} (ho : brings a p o) :
    affectsDir d o = true → p.parent = some d ∨ ((∃ dst, o = .rename a dst) ∧ a.parent = some d) := by
  cases o with
  | rename src dst =>
    obtain ⟨rfl, rfl⟩ := ho
    simp [affectsDir, or_comm]
  | createHardLink q target time =>
    obtain ⟨rfl, rfl⟩ := ho
    simp [affectsDir]
  | _ => exact absurd ho id

theorem affectsDir_brings_of_parent {a p d : Path} {o : PendingOp} (ho : brings a p o)
    (hd : p.parent = some d) : affectsDir d o = true := by
  cases o with
  | rename src dst => simp [affectsDir, ho.2, hd]
  | createHardLink q target time => simp [affectsDir, ho.1, hd]
  | _ => exact absurd ho id

/-- A sync of `p`'s directory saves the file; a sync of another directory leaves it arriving,
unless the operation is a rename out of that directory. -/
theorem Arriving.syncDir {s : FsState} {a p d : Path} {c : List UInt8} (h : s.Arriving a p c)
    (hex : s.dirExists d = true) (time : Duration)
    (hside : PendingOp.rename a p ∈ s.pending → a.parent = some d → p.parent = some d) :
    if p.parent = some d then (s.syncDir d time).1.Saved p c
    else (s.syncDir d time).1.Arriving a p c := by
  obtain ⟨h1, h2, h3, -⟩ := syncDir_at hex time p
  obtain ⟨l₁, o, l₂, hq, ho, hquiet⟩ := h.queue
  have hq1 : ∀ op ∈ l₁, a ∉ op.touches ∧ p ∉ op.touches :=
    fun op hop => hquiet op (List.mem_append_left _ hop)
  have hq2 : ∀ op ∈ l₂, a ∉ op.touches ∧ p ∉ op.touches :=
    fun op hop => hquiet op (List.mem_append_right _ hop)
  have hnodata : ∀ {l : List PendingOp} {op : PendingOp} {q : Path},
      op ∈ l.filter (affectsDir d) → isDataOf q op = false := by
    intro l op q hop
    have haff := (List.mem_filter.mp hop).2
    cases op <;> simp_all [isDataOf, affectsDir]
  split
  · rename_i hpar
    have hflush : s.dirFlush d = l₁.filter (affectsDir d) ++ o :: l₂.filter (affectsDir d) := by
      rw [dirFlush, hq, List.filter_append,
        List.filter_cons_of_pos (affectsDir_brings_of_parent ho hpar)]
    refine ⟨?_, ?_, ?_⟩
    · rw [h1, hflush, List.foldl_append, List.foldl_cons,
        foldl_applyOp_storedAt fun op hop =>
          ⟨(hq2 op (List.mem_filter.mp hop).1).2, hnodata hop⟩]
      refine applyOp_brings ho ?_
      rw [foldl_applyOp_storedAt fun op hop =>
        ⟨(hq1 op (List.mem_filter.mp hop).1).1, hnodata hop⟩]
      exact h.stored
    · rw [h2, foldl_syncEntry_of_parent hpar, hflush, List.foldl_append, List.foldl_cons,
        entryStep_brings ho]
      exact foldl_entryStep_untouched (fun op hop => (hq2 op (List.mem_filter.mp hop).1).2) _
    · rw [h3, dirKeep, hq, List.filter_append,
        List.filter_cons_of_neg (by simp [affectsDir_brings_of_parent ho hpar])]
      intro op hop
      rcases List.mem_append.mp hop with hop | hop
      · exact (hq1 op (List.mem_filter.mp hop).1).2
      · exact (hq2 op (List.mem_filter.mp hop).1).2
  · rename_i hpar
    have hkeep : affectsDir d o = false := by
      by_contra hc
      rcases affectsDir_brings ho (by simpa using hc) with hp | ⟨⟨dst, rfl⟩, hp⟩
      · exact hpar hp
      · obtain ⟨-, rfl⟩ := ho
        exact hpar (hside (by simp [hq]) hp)
    refine ⟨h.ne, ?_, ⟨l₁.filter fun op => !affectsDir d op, o,
      l₂.filter fun op => !affectsDir d op, ?_, ho, ?_⟩⟩
    · obtain ⟨h1, -⟩ := syncDir_at hex time a
      rw [h1, foldl_applyOp_storedAt fun op hop => ?_]
      · exact h.stored
      · refine ⟨?_, not_data_of_flushed hop⟩
        obtain ⟨hm, ha⟩ := List.mem_filter.mp hop
        rw [hq] at hm
        rcases List.mem_append.mp hm with hm | hm
        · exact (hq1 op hm).1
        · rcases List.mem_cons.mp hm with rfl | hm
          · rw [ha] at hkeep
            cases hkeep
          · exact (hq2 op hm).1
    · rw [h3, dirKeep, hq, List.filter_append, List.filter_cons_of_pos (by simp [hkeep])]
    · intro op hop
      refine hquiet op ?_
      rcases List.mem_append.mp hop with hop | hop
      · exact List.mem_append_left _ (List.mem_filter.mp hop).1
      · exact List.mem_append_right _ (List.mem_filter.mp hop).1

/-! ## 5. The condition -/

/-- The state is such that syncing `p` and the directories above it saves `p` as it is. -/
inductive SyncsDurably (s : FsState) (p : Path) : Prop where
  /-- Nothing pending removes, moves or links `p`; its entry is durable or its creation is
  pending in a directory; and its bytes were not truncated and grown over again. -/
  | own (calm : ∀ op ∈ s.pending, keepsInode p op)
      (entry : s.syncedEntries.contains p = true
        ∨ (p.parent ≠ none ∧ ∃ time mode, PendingOp.createFile p time mode ∈ s.pending))
      (grow : s.NoRegrow p)
  /-- One pending rename or hard link brings `p` from a stored file without pending data, and
  no other pending operation touches the two names.  A rename does not come from a directory
  above `p` other than `p`'s own. -/
  | arriving (a : Path) (ne : a ≠ p) (hasParent : p.parent ≠ none)
      (stored : s.persistedFiles.contains a = true)
      (queue : ∃ l₁ o l₂, s.pending = l₁ ++ o :: l₂ ∧ brings a p o
        ∧ ∀ op ∈ l₁ ++ l₂, a ∉ op.touches ∧ p ∉ op.touches)
      (data : ∀ op ∈ s.pending, isDataOf a op = false)
      (side : PendingOp.rename a p ∈ s.pending → ∀ d ∈ p.ancestors,
        a.parent = some d → p.parent = some d)

/-- Of the operations that keep an inode, only a creation leaves a file where it acts. -/
theorem createFile_of_touches {p : Path} {m : Path → Option EntryKind} {op : PendingOp}
    (hop : keepsInode p op) (ht : p ∈ op.touches) (h : kindStep m op p = some .file) :
    ∃ time mode, op = .createFile p time mode := by
  cases op with
  | createFile q time mode =>
    obtain rfl := List.mem_singleton.mp ht
    exact ⟨time, mode, rfl⟩
  | rename src dst =>
    obtain ⟨h1, h2⟩ := hop
    simp [PendingOp.touches, Ne.symm h1, Ne.symm h2] at ht
  | createDir q time mode =>
    obtain rfl := List.mem_singleton.mp ht
    simp [kindStep] at h
  | createSymlink q target time =>
    obtain rfl := List.mem_singleton.mp ht
    simp [kindStep] at h
  | removeDir q =>
    obtain rfl := List.mem_singleton.mp ht
    simp [kindStep] at h
  | createHardLink q target time => exact absurd (List.mem_singleton.mp ht).symm hop
  | removeFile q => exact absurd (List.mem_singleton.mp ht).symm hop
  | _ => cases ht

/-- The last operation at a path that is now a file made its entry, or there was none. -/
theorem foldl_entryStep_of_file {p : Path} {log : List PendingOp}
    (hcalm : ∀ op ∈ log, keepsInode p op) (b : Bool) :
    ∀ {m : Path → Option EntryKind}, kindOps.replay m log p = some .file →
      log.foldl (entryStep p) b = true ∨ (log.foldl (entryStep p) b = b
        ∧ ∀ time mode, PendingOp.createFile p time mode ∉ log) := by
  induction log using List.reverseRecOn with
  | nil => exact fun _ => Or.inr ⟨rfl, fun _ _ h => by cases h⟩
  | append_singleton log op ih =>
    intro m h
    have hop := hcalm op (by simp)
    rw [kindOps.replay_snoc] at h
    replace h : kindStep (kindOps.replay m log) op p = some .file := h
    rw [List.foldl_append, List.foldl_cons, List.foldl_nil]
    by_cases ht : p ∈ op.touches
    · -- only a creation of a file leaves a file
      left
      obtain ⟨time, mode, rfl⟩ := createFile_of_touches hop ht h
      simp [entryStep]
    · rw [entryStep_untouched ht]
      have hkind : kindOps.replay m log p = some .file := (kindStep_untouched ht _).symm.trans h
      refine (ih (fun o ho => hcalm o (by simp [ho])) hkind).imp id fun ⟨h1, h2⟩ => ⟨h1, ?_⟩
      intro time mode hm
      rcases List.mem_append.mp hm with hm | hm
      · exact h2 time mode hm
      · rw [← List.mem_singleton.mp hm] at ht
        exact ht (by simp [PendingOp.touches])

section Start

variable {s : FsState} {p : Path}

/-- A file with its own inode shows the bytes a sync would store. -/
theorem content_of_own (calm : ∀ op ∈ s.pending, keepsInode p op) (grow : s.NoRegrow p) :
    s.content p = some (s.applied p) := by
  have hlink : ∀ target time, PendingOp.createHardLink p target time ∉ s.pending :=
    fun target time hm => absurd rfl (calm _ hm)
  have hdst : ∀ src, PendingOp.rename src p ∉ s.pending :=
    fun src hm => absurd rfl (calm _ hm).2
  have hpull : pullAll s.pending p = p := by
    rcases pullAll_cases s.pending p with h | ⟨⟨src, h⟩, -⟩
    · exact h
    · exact absurd h (hdst src)
  rw [content, resolveContentPath_of_no_link hlink, hpull, Option.map_some, contentAt_eq_view,
    dataAt_eq_isDataOf hdst, view_eq_applied grow]
  rfl

/-- A sync of the file itself puts it on its own. -/
theorem Own.of_flushFile (hfile : s.entryKind p = some .file)
    (calm : ∀ op ∈ s.pending, keepsInode p op)
    (entry : s.syncedEntries.contains p = true
      ∨ (p.parent ≠ none ∧ ∃ time mode, PendingOp.createFile p time mode ∈ s.pending)) :
    (s.flushFile p).1.Own p (s.applied p) := by
  obtain ⟨files, f, heq, hf, hcontent, -⟩ := flushFile_spec (fileExists_iff.mpr hfile)
  rw [heq]
  refine ⟨?_, fun op hop => calm op (List.mem_filter.mp hop).1, ?_, ?_⟩
  · simp [storedAt, hf, hcontent]
  · show (s.pending.filter fun op => !isDataOf p op).foldl (entryStep p)
      (s.syncedEntries.contains p) = true
    rw [foldl_filter_skip fun op _ hd b =>
      entryStep_untouched (not_touches_of_isDataOf (by simpa using hd)) b]
    rcases foldl_entryStep_of_file calm (s.syncedEntries.contains p)
      ((congrFun (entryKind_eq_replay s) p).symm.trans hfile) with h | ⟨h, hno⟩
    · exact h
    · rcases entry with he | ⟨-, time, mode, hm⟩
      · rw [h, he]
      · exact absurd hm (hno time mode)
  · intro hnone
    rcases entry with he | ⟨hp, -⟩
    · exact he
    · exact absurd hnone hp

variable {a : Path}

/-- A file arriving from a stored name shows the bytes stored there. -/
theorem content_of_arriving {c : List UInt8} (h : s.Arriving a p c)
    (data : ∀ op ∈ s.pending, isDataOf a op = false) : s.content p = some c := by
  obtain ⟨l₁, o, l₂, hq, ho, hquiet⟩ := h.queue
  have hmem : ∀ op ∈ s.pending, op = o ∨ (a ∉ op.touches ∧ p ∉ op.touches) := by
    intro op hop
    rw [hq] at hop
    rcases List.mem_append.mp hop with hop | hop
    · exact Or.inr (hquiet op (List.mem_append_left _ hop))
    · rcases List.mem_cons.mp hop with hop | hop
      · exact Or.inl hop
      · exact Or.inr (hquiet op (List.mem_append_right _ hop))
  -- nothing is moved onto `a` or linked there
  have hdst : ∀ src, PendingOp.rename src a ∉ s.pending := by
    intro src hm
    rcases hmem _ hm with rfl | ⟨h1, -⟩
    · exact h.ne ho.2
    · exact h1 (by simp [PendingOp.touches])
  have hlink : ∀ target time, PendingOp.createHardLink a target time ∉ s.pending := by
    intro target time hm
    rcases hmem _ hm with rfl | ⟨h1, -⟩
    · exact h.ne ho.1
    · exact h1 (by simp [PendingOp.touches])
  have hpull : ∀ {l : List PendingOp} {q : Path}, (∀ op ∈ l, q ∉ op.touches) → pullAll l q = q := by
    intro l q hl
    rcases pullAll_cases l q with h | ⟨⟨src, h⟩, -⟩
    · exact h
    · exact absurd (by simp [PendingOp.touches]) (hl _ h)
  have hbytes : s.contentAt a = c := by
    have hnil : s.pending.filter (isDataOf a) = [] :=
      List.filter_eq_nil_iff.mpr fun op hop => by simp [data op hop]
    rw [contentAt_eq_view, dataAt_eq_isDataOf hdst, hnil, view_nil,
      storedContent_of_storedAt h.stored]
  have hl₁ : ∀ op ∈ l₁, a ∉ op.touches := fun op hop => (hquiet op (List.mem_append_left _ hop)).1
  have hl₂ : ∀ op ∈ l₂, a ∉ op.touches := fun op hop => (hquiet op (List.mem_append_right _ hop)).1
  have hlp : ∀ op ∈ l₂, p ∉ op.touches := fun op hop => (hquiet op (List.mem_append_right _ hop)).2
  suffices hres : s.resolveContentPath p = some a by
    rw [content, hres, Option.map_some, hbytes]
  cases o with
  | rename src dst =>
    obtain ⟨rfl, rfl⟩ := ho
    have hnolink : ∀ target time, PendingOp.createHardLink dst target time ∉ s.pending := by
      intro target time hm
      rcases hmem _ hm with h | ⟨-, h2⟩
      · cases h
      · exact h2 (by simp [PendingOp.touches])
    rw [resolveContentPath_of_no_link hnolink, hq, pullAll, List.foldr_append, List.foldr_cons]
    have h2 : l₂.foldr pullPath dst = dst := hpull hlp
    rw [h2]
    have h1 : l₁.foldr pullPath src = src := hpull hl₁
    simpa [pullPath] using h1
  | createHardLink q target time =>
    obtain ⟨rfl, rfl⟩ := ho
    have htarget : s.resolveHardlinkTarget q = some target := by
      have hnone : l₁.findSome? (hardLinkAt q) = none := by
        rw [List.findSome?_eq_none_iff]
        intro op hop
        have hno := (hquiet op (List.mem_append_left _ hop)).2
        cases op with
        | createHardLink r t time' =>
          have hr : ¬ r = q := fun e => hno (by simp [PendingOp.touches, e])
          simp [hardLinkAt, hr]
        | _ => rfl
      rw [resolveHardlinkTarget, hq, List.findSome?_append, hnone]
      simp [hardLinkAt]
    have hnone : s.resolveHardlinkTarget target = none := by
      by_contra hc
      obtain ⟨op, hop, hsome⟩ := List.mem_filterMap.mp (mem_linkedPaths hc)
      cases op with
      | createHardLink r t time' =>
        cases hsome
        exact hlink t time' hop
      | _ => cases hsome
    have hpos : ∃ n, s.pending.length = n + 1 := ⟨s.pending.length - 1, by
      have : 0 < s.pending.length := by rw [hq, List.length_append, List.length_cons]; omega
      omega⟩
    obtain ⟨n, hn⟩ := hpos
    rw [resolveContentPath, resolveContentPathIn_eq, hn, chase_some htarget, chase_none hnone,
      Option.map_some, resolvePersistedPath_eq]
    congr 1
    rcases pullAll_cases s.pending target with h | ⟨⟨src, h⟩, -⟩
    · exact h
    · exact absurd h (hdst src)
  | _ => exact absurd ho id

/-- A sync of the file itself leaves it arriving. -/
theorem Arriving.flushFile {c : List UInt8} (h : s.Arriving a p c)
    (hfile : s.entryKind p = some .file) : (s.flushFile p).1.Arriving a p c := by
  obtain ⟨files, f, heq, -, -, hother⟩ := flushFile_spec (fileExists_iff.mpr hfile)
  obtain ⟨l₁, o, l₂, hq, ho, hquiet⟩ := h.queue
  rw [heq]
  have hnd : isDataOf p o = false := by
    cases o <;> first | rfl | exact absurd ho id
  refine ⟨h.ne, ?_, l₁.filter fun op => !isDataOf p op, o, l₂.filter fun op => !isDataOf p op, ?_,
    ho, ?_⟩
  · have := h.stored
    simpa [storedAt, hother a h.ne] using this
  · show s.pending.filter (fun op => !isDataOf p op) = _
    rw [hq, List.filter_append, List.filter_cons_of_pos (by simp [hnd])]
  · intro op hop
    refine hquiet op ?_
    rcases List.mem_append.mp hop with hop | hop
    · exact List.mem_append_left _ (List.mem_filter.mp hop).1
    · exact List.mem_append_right _ (List.mem_filter.mp hop).1

end Start

/-! ## 6. Durability -/

/-- The call returned `Ok`. -/
def Succeeds (s : FsState) (op : FsOp) : Prop := (s.apply op).2.toBool = true

/-- Syncs of directories. -/
def syncDirs (dirs : List (Path × Duration)) : List FsOp := dirs.map fun d => .syncDir d.1 d.2

theorem dirExists_of_succeeds {s : FsState} {d : Path} {time : Duration}
    (h : s.Succeeds (.syncDir d time)) : s.dirExists d = true := by
  cases hex : s.dirExists d with
  | true => rfl
  | false =>
    rw [Succeeds, FsState.apply, syncDir_err hex] at h
    cases h

theorem Saved.run {p : Path} {c : List UInt8} {dirs : List (Path × Duration)} :
    ∀ {s : FsState}, s.Saved p c → Along Succeeds s (syncDirs dirs) →
      (s.run (syncDirs dirs)).Saved p c := by
  induction dirs with
  | nil => exact fun h _ => h
  | cons d dirs ih =>
    intro s h hal
    exact ih (h.syncDir (dirExists_of_succeeds hal.1) d.2) hal.2

/-- A file that only its own directory's sync moves on is saved once that one has been made. -/
theorem saved_run {p : Path} {c : List UInt8} (inv : FsState → Prop)
    (hstep : ∀ s d time, inv s → s.dirExists d = true → d ∈ p.ancestors →
      if p.parent = some d then (s.syncDir d time).1.Saved p c else inv (s.syncDir d time).1)
    {parent : Path} (hpar : p.parent = some parent) {dirs : List (Path × Duration)} :
    ∀ {s : FsState}, inv s → (∀ d ∈ dirs, d.1 ∈ p.ancestors) → parent ∈ dirs.map Prod.fst →
      Along Succeeds s (syncDirs dirs) → (s.run (syncDirs dirs)).Saved p c := by
  induction dirs with
  | nil => exact fun _ _ hm => by cases hm
  | cons d dirs ih =>
    intro s hinv hanc hm hal
    have hex := dirExists_of_succeeds hal.1
    have := hstep s d.1 d.2 hinv hex (hanc d List.mem_cons_self)
    split at this
    · exact Saved.run (s := (s.syncDir d.1 d.2).1) this hal.2
    · rename_i hne
      refine ih this (fun x hx => hanc x (List.mem_cons_of_mem _ hx)) ?_ hal.2
      rcases List.mem_cons.mp hm with e | hm
      · exact absurd (hpar.trans (congrArg some e)) hne
      · exact hm

/-- **Durability.**  After any history, if `sync_file p` and then `sync_dir` on every directory
above `p`, in any order, succeed, and the state before met `SyncsDurably`, then after a crash `p`
is a file with the length and the bytes it showed before the syncs. -/
theorem sync_durable (config : FsConfig) (hb : config.blockSize = none) (ops : List FsOp)
    (p : Path) (dirs : List (Path × Duration))
    (hdirs : ∀ d, d ∈ dirs.map Prod.fst ↔ d ∈ p.ancestors)
    (hcond : ((FsState.new config).run ops).SyncsDurably p)
    (hok : Along Succeeds ((FsState.new config).run ops) (.syncFile p :: syncDirs dirs))
    (surviving : Nat → Nat) :
    let before := (FsState.new config).run ops
    let after := (before.run (.syncFile p :: syncDirs dirs)).crash surviving
    after.entryKind p = some .file
    ∧ after.fileLen p = before.fileLen p
    ∧ ∀ bufLen offset, after.readFile p bufLen offset = before.readFile p bufLen offset := by
  intro before after
  have hfile : before.entryKind p = some .file := by
    have h1 := hok.1
    cases hex : before.fileExists p with
    | true => exact fileExists_iff.mp hex
    | false =>
      rw [Succeeds, FsState.apply, syncFile, flushFile_err hex] at h1
      cases h1
  have hblock : ∀ l, (before.run l).blockSize = none := by
    intro l
    rw [run_blockSize, run_blockSize]
    exact hb
  have hanc : ∀ d ∈ dirs, d.1 ∈ p.ancestors :=
    fun d hd => (hdirs d.1).mp (List.mem_map_of_mem hd)
  suffices h : ∃ c, before.content p = some c ∧ after.entryKind p = some .file
      ∧ after.content p = some c by
    obtain ⟨c, h1, h2, h3⟩ := h
    refine ⟨h2, ?_, fun bufLen offset => ?_⟩
    · rw [fileLen_eq_length, fileLen_eq_length, h1, h3]
    · rw [readFile_eq_slice, readFile_eq_slice, h1, h3]
  cases hcond with
  | own calm entry grow =>
    refine ⟨before.applied p, content_of_own calm grow, ?_⟩
    have hown := Own.of_flushFile hfile calm entry
    cases hpar : p.parent with
    | none =>
      -- no directory above: the entry was durable from the start
      have hnil : dirs = [] := by
        have hempty : p.ancestors = [] := by
          unfold Path.parent at hpar
          split at hpar
          · rename_i hc
            simp [Path.ancestors, hc]
          · cases hpar
        rw [List.eq_nil_iff_forall_not_mem]
        intro d hd
        have := hanc d hd
        rw [hempty] at this
        cases this
      subst hnil
      exact crash_saves hown.stored (hown.rooted hpar) (hblock [.syncFile p]) surviving
    | some parent =>
      have hsaved := saved_run (fun s => s.Own p (before.applied p))
        (fun s d time h hex hd => h.syncDir hex (Path.ne_of_mem_ancestors hd) time) hpar hown hanc
        ((hdirs parent).mpr (Path.parent_mem_ancestors hpar)) hok.2
      exact crash_saves hsaved.stored hsaved.entry (hblock (.syncFile p :: syncDirs dirs)) surviving
  | arriving a ne hasParent stored queue data side =>
    obtain ⟨f, hf⟩ := IndexMap.contains_iff.mp stored
    have harr : before.Arriving a p f.content := ⟨ne, Option.map_eq_some_iff.mpr ⟨f, hf, rfl⟩, queue⟩
    refine ⟨f.content, content_of_arriving harr data, ?_⟩
    obtain ⟨parent, hpar⟩ := Option.ne_none_iff_exists'.mp hasParent
    -- the queue only loses operations, so the side condition stays true
    have hsaved := saved_run
      (fun s => s.Arriving a p f.content ∧ ∀ op ∈ s.pending, op ∈ before.pending)
      (fun s d time h hex hd => by
        have hstep := h.1.syncDir hex time
          (fun hm hp => side (h.2 _ hm) d hd hp)
        split at hstep
        · rename_i hp
          rw [if_pos hp]
          exact hstep
        · rename_i hp
          rw [if_neg hp]
          refine ⟨hstep, fun op hop => h.2 op ?_⟩
          rw [(syncDir_at hex time p).2.2.1] at hop
          exact (List.mem_filter.mp hop).1) hpar
      ⟨harr.flushFile hfile, fun op hop => by
        obtain ⟨files, f, heq, -⟩ := flushFile_spec (fileExists_iff.mpr hfile)
        rw [heq] at hop
        exact (List.mem_filter.mp hop).1⟩ hanc
      ((hdirs parent).mpr (Path.parent_mem_ancestors hpar)) hok.2
    exact crash_saves hsaved.stored hsaved.entry (hblock (.syncFile p :: syncDirs dirs)) surviving

/-- A file written in a new directory. -/
def nestedFileHistory : List FsOp :=
  [.mkdir (Path.abs ["d"]) 0 0o755, .createFile (Path.abs ["d", "f"]) 0 0o644,
    .writeFile (Path.abs ["d", "f"]) 0 [1, 2] 0]

/-- The theorem at that file. -/
theorem sync_durable_nestedFile :
    ((((FsState.new FsConfig.default).run nestedFileHistory).run
      (.syncFile (Path.abs ["d", "f"]) :: syncDirs [(Path.abs ["d"], 0), (Path.root, 0)])).crash
        fun _ => 0).readFile (Path.abs ["d", "f"]) 9 0 = some [1, 2] := by
  have hpend : ((FsState.new FsConfig.default).run nestedFileHistory).pending
      = [.createDir (Path.abs ["d"]) 0 0o755, .createFile (Path.abs ["d", "f"]) 0 0o644,
        .write (Path.abs ["d", "f"]) 0 [1, 2] 0] := by decide
  have hcond : ((FsState.new FsConfig.default).run nestedFileHistory).SyncsDurably
      (Path.abs ["d", "f"]) := by
    refine .own ?_ (Or.inr ⟨by decide, 0, 0o644, ?_⟩) (by decide)
    · rw [hpend]
      intro op hop
      simp only [List.mem_cons, List.not_mem_nil, or_false] at hop
      rcases hop with rfl | rfl | rfl <;> trivial
    · rw [hpend]
      simp
  rw [(sync_durable FsConfig.default rfl nestedFileHistory (Path.abs ["d", "f"])
    [(Path.abs ["d"], 0), (Path.root, 0)] (by
      intro d
      simp [Path.ancestors, Path.abs, Path.root, List.range_succ, or_comm]) hcond
    ⟨by unfold Succeeds; decide, by unfold Succeeds; decide, by unfold Succeeds; decide, trivial⟩
    fun _ => 0).2.2 9 0]
  decide

/-- A file that is written, then renamed. -/
def writtenThenRenamed : List FsOp :=
  [.createFile (Path.abs ["a"]) 0 0o644, .writeFile (Path.abs ["a"]) 0 [1] 0,
    .rename (Path.abs ["a"]) (Path.abs ["b"])]

/-- **A renamed file loses its bytes**, although the file and its directory were synced. -/
theorem sync_not_durable_after_rename :
    Along (fun s op => (s.apply op).2.toBool = true)
      ((FsState.new FsConfig.default).run writtenThenRenamed)
      [.syncFile (Path.abs ["b"]), .syncDir Path.root 0]
    ∧ ((FsState.new FsConfig.default).run writtenThenRenamed).fileLen (Path.abs ["b"]) = some 1
    ∧ ((((FsState.new FsConfig.default).run writtenThenRenamed).run
        [.syncFile (Path.abs ["b"]), .syncDir Path.root 0]).crash fun _ => 0).fileLen
          (Path.abs ["b"]) = some 0 := by
  decide

end FsState

end Turmoil.Fs
