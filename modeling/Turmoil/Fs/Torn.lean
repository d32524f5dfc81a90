/-
# Torn writes and the files they were addressed to

With a block size set, a crash lets the first blocks of every pending write reach the disk.  They
should reach the file the write was addressed to, and no other.

The code has no files in this sense.  A pending write carries the path it was made through, a
stored inode is found by its path, and the crash puts the two together when the paths are equal.
Between the write and the crash the path may have come to mean another file: a file was unlinked
or renamed away and the name taken again, and none of that was synced, so that the inode of the
old file is still what is stored there.  The other way round, a `sync_dir` moves an inode to its
new name, puts that of a new file under the old name, and leaves the writes where they were
recorded.

To say which file is which, **section 1** lets a run carry identities along: the file each name
stands for, the file whose inode is stored under each name, and the file each pending operation was
made for.  **Section 2** states what torn writes may do to a durable file (`Inside`) and shows that
this is exactly that every pending write recorded under a durable name was addressed to the file
stored there (`inside_iff`).  **Section 3** turns that into the condition on each call
(`torn_writes_stay_inside_iff`): a write to a durable name goes to the file stored under it, and a
`sync_dir` leaves no durable name with another file's pending writes.
-/
import Turmoil.Fs.SyncView

namespace Turmoil.Fs

open Buffer

/-! ## 1. Files, not names -/

/-- A file, whatever it is called; `0` is none. -/
abbrev FileId := Nat

/-- A filesystem with the identities of its files. -/
structure Tracked where
  fs : FsState
  /-- The identity of the next new file. -/
  next : FileId
  /-- The file a name stands for, or stood for last: handles opened through it still write to
  that file. -/
  means : Path → FileId
  /-- The file whose inode is stored under a name. -/
  inode : Path → FileId
  /-- The pending operations, each with the file it is about. -/
  log : List (PendingOp × FileId)

namespace FsState

/-- A stored file with a durable directory entry. -/
def durable (s : FsState) (p : Path) : Bool :=
  s.persistedFiles.contains p && s.syncedEntries.contains p

end FsState

namespace Tracked

/-- A fresh filesystem. -/
def new (config : FsConfig) : Tracked := ⟨FsState.new config, 1, fun _ => 0, fun _ => 0, []⟩

/-- What the names stand for once an operation is queued. -/
def meansAfter (t : Tracked) : PendingOp → Path → FileId
  | .createFile p _ _ =>
    -- creating a file that is there opens it
    if t.fs.fileExists p then t.means else Function.update t.means p t.next
  | .createHardLink p target _ => Function.update t.means p (t.means target)
  | .rename src dst =>
    if t.fs.fileExists src then Function.update t.means dst (t.means src) else t.means
  | _ => t.means

/-- The file an operation is about. -/
def about (t : Tracked) (op : PendingOp) : FileId :=
  match op with
  | .createFile p _ _ => t.meansAfter op p
  | .write p _ _ _ => t.means p
  | _ => 0

/-- What applying an operation does to the stored inodes: a creation adds one where there is none,
a hard link copies one, a rename moves one. -/
def inodeStep (s : FsState) (inode : Path → FileId) (file : FileId) : PendingOp → Path → FileId
  | .createFile p _ _ =>
    if s.persistedFiles.contains p then inode else Function.update inode p file
  | .createHardLink p target _ =>
    if s.persistedFiles.contains target then Function.update inode p (inode target) else inode
  | .rename src dst =>
    if s.persistedFiles.contains src then Function.update inode dst (inode src) else inode
  | _ => inode

/-- The flush of `sync_dir d`, with the inodes followed through it. -/
def flushed (t : Tracked) (d : Path) : FsState × (Path → FileId) :=
  (t.log.filter fun x => FsState.affectsDir d x.1).foldl
    (fun y x => (FsState.flushDirOp d y.1 x.1, inodeStep y.1 y.2 x.2 x.1))
    ({ t.fs with pending := t.fs.pending.filter fun op => !FsState.affectsDir d op }, t.inode)

/-- A call that queues `o`, unless it fails. -/
def queue (t : Tracked) (fs : FsState) (o : PendingOp) : Tracked :=
  if fs.pending = t.fs.pending then { t with fs := fs }
  else
    { t with
      fs := fs, next := t.next + 1, means := t.meansAfter o, log := t.log ++ [(o, t.about o)] }

/-- `sync_file`: the writes recorded under the path are stored; a made-up inode is that of the file
the path stands for. -/
def flushFile (t : Tracked) (p : Path) : Tracked :=
  if t.fs.fileExists p then
    { t with
      fs := (t.fs.flushFile p).1
      inode := if t.fs.persistedFiles.contains p then t.inode
        else Function.update t.inode p (t.means p)
      log := t.log.filter fun x => !FsState.isDataOf p x.1 }
  else t

def flushDir (t : Tracked) (d : Path) (time : Duration) : Tracked :=
  if t.fs.dirExists d then
    { t with
      fs := (t.fs.syncDir d time).1
      inode := (t.flushed d).2
      log := t.log.filter fun x => !FsState.affectsDir d x.1 }
  else t

/-- After a crash a name stands for what is stored under it. -/
def crash (t : Tracked) (surviving : Nat → Nat) : Tracked :=
  { t with
    fs := t.fs.crash surviving
    means := fun p => if (t.fs.crash surviving).persistedFiles.contains p then t.inode p else 0
    log := [] }

/-- One call. -/
def step (t : Tracked) (op : FsOp) : Tracked :=
  match op with
  | .syncFile p => t.flushFile p
  | .syncFileData p => t.flushFile p
  | .syncDir d time => t.flushDir d time
  | .crash surviving => t.crash surviving
  | _ =>
    match FsState.queued op with
    | some o => t.queue (t.fs.apply op).1 o
    | none => t

def run (t : Tracked) (ops : List FsOp) : Tracked := runAll step t ops

/-- The log is the queue of the filesystem. -/
def Matches (t : Tracked) : Prop := t.log.map Prod.fst = t.fs.pending

theorem matches_new (config : FsConfig) : (new config).Matches := rfl

theorem step_of_queued {op : FsOp} {o : PendingOp} (h : FsState.queued op = some o) (t : Tracked) :
    t.step op = t.queue (t.fs.apply op).1 o := by
  cases op <;> cases h <;> rfl

@[simp] theorem queue_fs (t : Tracked) (fs : FsState) (o : PendingOp) : (t.queue fs o).fs = fs := by
  unfold queue
  split <;> rfl

@[simp] theorem flushFile_fs (t : Tracked) (p : Path) :
    (t.flushFile p).fs = (t.fs.flushFile p).1 := by
  cases h : t.fs.fileExists p <;> simp [flushFile, FsState.flushFile, h]

@[simp] theorem flushDir_fs (t : Tracked) (d : Path) (time : Duration) :
    (t.flushDir d time).fs = (t.fs.syncDir d time).1 := by
  cases h : t.fs.dirExists d <;> simp [flushDir, FsState.syncDir, h]

/-- **The identities only watch**: the filesystem does what it does without them. -/
theorem step_fs (t : Tracked) (op : FsOp) : (t.step op).fs = (t.fs.apply op).1 := by
  cases op <;> simp [step, FsState.queued, FsState.apply, FsState.syncFile, FsState.syncFileData,
    crash]

theorem run_fs (ops : List FsOp) : ∀ t : Tracked, (t.run ops).fs = t.fs.run ops := by
  induction ops with
  | nil => exact fun _ => rfl
  | cons op ops ih =>
    intro t
    have hstep := ih (t.step op)
    rwa [step_fs] at hstep

/-- What a call that is neither a sync nor a crash leaves: everything stored, and the log with at
most its own operation added. -/
theorem queue_cases {t : Tracked} {op : FsOp} {o : PendingOp} (h : FsState.queued op = some o) :
    ((t.step op).inode = t.inode ∧ (t.step op).fs.persistedFiles = t.fs.persistedFiles
        ∧ (t.step op).fs.syncedEntries = t.fs.syncedEntries)
      ∧ (((t.step op).log = t.log ∧ (t.step op).fs.pending = t.fs.pending
          ∧ ∀ p offset data time, o = .write p offset data time → data = [])
        ∨ ((t.step op).log = t.log ++ [(o, t.about o)]
          ∧ (t.step op).fs.pending = t.fs.pending ++ [o])) := by
  rw [step_of_queued h]
  rcases t.fs.apply_queued h with ⟨hsame, hwhy⟩ | ⟨⟨cache, hpush⟩, -⟩
  · rw [hsame, queue, if_pos rfl]
    refine ⟨⟨rfl, rfl, rfl⟩, .inl ⟨rfl, rfl, ?_⟩⟩
    rintro p offset data time rfl
    rcases hwhy with hfail | ⟨_, _, _, heq⟩
    · cases op <;> cases h
      cases hfail
    · cases heq
      rfl
  · rw [hpush, queue, if_neg (by simp [FsState.push])]
    exact ⟨⟨rfl, rfl, rfl⟩, .inr ⟨rfl, rfl⟩⟩

/-- The pending operations that a flush keeps. -/
theorem Matches.filter {t : Tracked} (h : t.Matches) (keep : PendingOp → Bool) :
    (t.log.filter fun x => keep x.1).map Prod.fst = t.fs.pending.filter keep := by
  rw [← show t.log.map Prod.fst = t.fs.pending from h, List.filter_map]
  rfl

/-- The states that the flush of a directory goes through. -/
theorem flushed_fst (d : Path) :
    ∀ (log : List (PendingOp × FileId)) (y : FsState × (Path → FileId)),
    (log.foldl (fun y x => (FsState.flushDirOp d y.1 x.1, inodeStep y.1 y.2 x.2 x.1)) y).1
      = (log.map Prod.fst).foldl (FsState.flushDirOp d) y.1
  | [], _ => rfl
  | x :: log, y => by
    rw [List.foldl_cons, flushed_fst d log]
    rfl

theorem foldl_flushDirOp_pending (d : Path) : ∀ (ops : List PendingOp) (s : FsState),
    (ops.foldl (FsState.flushDirOp d) s).pending = s.pending
  | [], _ => rfl
  | op :: ops, s => by
    rw [List.foldl_cons, foldl_flushDirOp_pending d ops]
    obtain ⟨files, dirs, links, heq⟩ := FsState.applyOp_eq
      { s with syncedEntries := FsState.syncEntry d s.syncedEntries op } op
    rw [FsState.flushDirOp, heq]

/-- `sync_dir` leaves the files and the entries of the flush. -/
theorem Matches.flushDir {t : Tracked} (h : t.Matches) {d : Path} (hd : t.fs.dirExists d = true)
    (time : Duration) : (t.fs.syncDir d time).1.persistedFiles = (t.flushed d).1.persistedFiles
      ∧ (t.fs.syncDir d time).1.syncedEntries = (t.flushed d).1.syncedEntries
      ∧ (t.fs.syncDir d time).1.pending
        = t.fs.pending.filter fun op => !FsState.affectsDir d op := by
  have hflush := flushed_fst d (t.log.filter fun x => FsState.affectsDir d x.1)
    ({ t.fs with pending := t.fs.pending.filter fun op => !FsState.affectsDir d op }, t.inode)
  rw [h.filter] at hflush
  have hpending := foldl_flushDirOp_pending d (t.fs.pending.filter (FsState.affectsDir d))
    { t.fs with pending := t.fs.pending.filter fun op => !FsState.affectsDir d op }
  rw [flushed, hflush, FsState.syncDir, if_neg (by simp [hd])]
  simp only
  split <;> exact ⟨rfl, rfl, hpending⟩

theorem Matches.step {t : Tracked} (h : t.Matches) (op : FsOp) : (t.step op).Matches := by
  have hqueue : ∀ o, FsState.queued op = some o → (t.step op).Matches := by
    intro o ho
    rcases (queue_cases ho).2 with ⟨hlog, hpending, -⟩ | ⟨hlog, hpending⟩
    · rwa [Matches, hlog, hpending]
    · rw [Matches, hlog, hpending, List.map_append, show t.log.map Prod.fst = _ from h]
      rfl
  have hfile : ∀ p, (t.flushFile p).Matches := by
    intro p
    cases hp : t.fs.fileExists p with
    | false => simpa [Tracked.flushFile, hp] using h
    | true =>
      obtain ⟨files, f, heq, -⟩ := FsState.flushFile_spec hp
      rw [Matches, flushFile_fs, heq, Tracked.flushFile, if_pos hp]
      exact h.filter fun op => !FsState.isDataOf p op
  cases op with
  | syncFile p => exact hfile p
  | syncFileData p => exact hfile p
  | syncDir d time =>
    cases hd : t.fs.dirExists d with
    | false => simpa [Tracked.step, Tracked.flushDir, hd] using h
    | true =>
      rw [Matches, step_fs]
      refine Eq.trans ?_ (h.flushDir hd time).2.2.symm
      simp only [Tracked.step, Tracked.flushDir, if_pos hd]
      exact h.filter fun op => !FsState.affectsDir d op
  | crash surviving => rfl
  | _ => exact hqueue _ rfl

/-! ## 2. What a crash applies -/

/-- What the first `blocks` blocks of a write do to a file: nothing if there are none, else the
last of them may be a partial one. -/
def tear (blockSize blocks : Nat) (content : List UInt8) : PendingOp → List UInt8
  | .write _ offset data _ =>
    if blocks = 0 then content else writeAt content offset (data.take (blocks * blockSize))
  | _ => content

/-- The torn writes of one crash stay inside the durable file `f`: the file keeps its entry, no
write that the crash applies to its inode was addressed to another file, and its bytes are what was
stored, with some number of blocks of every write addressed to it laid over in order. -/
structure TornInside (t : Tracked) (blockSize : Nat) (f : Path) (surviving : Nat → Nat) : Prop where
  keeps : (t.fs.crash surviving).durable f = true
  own : ∀ i offset data time file o, t.log[i]? = some (.write f offset data time, file) →
    t.fs.tornWrite blockSize (surviving i) (.write f offset data time) = some o →
    file = t.inode f
  content : ∃ blocks : Nat → Nat, (t.fs.crash surviving).storedContent f
    = t.log.zipIdx.foldl
        (fun c x => if x.1.2 = t.inode f then tear blockSize (blocks x.2) c x.1.1 else c)
        (t.fs.storedContent f)

/-- **Torn writes stay inside their own file**, whatever the crash draws. -/
def Inside (t : Tracked) : Prop := ∀ blockSize, t.fs.blockSize = some blockSize →
  ∀ f, t.fs.durable f = true → ∀ surviving, TornInside t blockSize f surviving

/-- Every pending write recorded under a durable name is addressed to the file stored there. -/
def Own (t : Tracked) : Prop := ∀ p offset data time file,
  (.write p offset data time, file) ∈ t.log → data ≠ [] → t.fs.durable p = true → file = t.inode p

/-- How many blocks of an operation a crash applies to the file stored under a name. -/
def blocksAt (blockSize surviving : Nat) (f : Path) : PendingOp → Nat
  | .write p _ data _ =>
    if p = f then min surviving ((data.length + blockSize - 1) / blockSize) else 0
  | _ => 0

/-- Nothing of an operation goes to a name it writes nothing under. -/
theorem tear_of_foreign {blockSize n : Nat} {f : Path} {c : List UInt8} {op : PendingOp}
    (hpos : 0 < blockSize)
    (h : ∀ offset data time, op = .write f offset data time → data ≠ [] → False) :
    tear blockSize (blocksAt blockSize n f op) c op = c := by
  cases op with
  | write p offset data time =>
    by_cases hp : p = f
    · subst hp
      have hempty : data = [] := by_contra fun hdata => h offset data time rfl hdata
      have hnone : (blockSize - 1) / blockSize = 0 := Nat.div_eq_of_lt (by omega)
      simp [tear, blocksAt, hempty, hnone]
    · simp [tear, blocksAt, hp]
  | _ => rfl

section Crash

variable {s : FsState} {blockSize : Nat} {f : Path}

/-- One operation of the queue, torn. -/
theorem tornWrite_storedContent (hf : s.durable f = true) (t : FsState)
    (ht : t.persistedFiles.contains f = true) (n : Nat) (op : PendingOp) :
    ((((s.tornWrite blockSize n op).toList.foldl FsState.applyOpToPersisted t).storedContent f)
        = tear blockSize (blocksAt blockSize n f op) (t.storedContent f) op)
      ∧ ((s.tornWrite blockSize n op).toList.foldl FsState.applyOpToPersisted
          t).persistedFiles.contains f = true := by
  rw [FsState.durable, Bool.and_eq_true] at hf
  obtain ⟨data₀, hdata₀⟩ := IndexMap.contains_iff.mp ht
  cases op with
  | write p offset data time =>
    by_cases hp : p = f
    · subst hp
      by_cases hblocks : min n ((data.length + blockSize - 1) / blockSize) = 0
      · simp [FsState.tornWrite, blocksAt, tear, hblocks, ht]
      · have htotal : (data.length + blockSize - 1) / blockSize ≠ 0 := fun h => by
          simp [h] at hblocks
        have htake : data.take (min (min n ((data.length + blockSize - 1) / blockSize) * blockSize)
            data.length)
              = data.take (min n ((data.length + blockSize - 1) / blockSize) * blockSize) := by
          rw [← List.take_eq_take_min]
        simp [FsState.tornWrite, blocksAt, tear, hblocks, htotal, hf.2, htake,
          FsState.applyOpToPersisted, FsState.storedContent, hdata₀, FileData.applyWrite, ht]
    · have hother : ∀ o, s.tornWrite blockSize n (.write p offset data time) = some o →
          (t.applyOpToPersisted o).storedContent f = t.storedContent f
            ∧ (t.applyOpToPersisted o).persistedFiles.contains f = true := by
        intro o ho
        obtain ⟨q, offset', data', time', k, heq, rfl⟩ := FsState.tornWrite_eq_some ho
        cases heq
        simp [FsState.applyOpToPersisted, FsState.storedContent, Ne.symm hp, ht]
      rw [blocksAt, if_neg hp, tear, if_pos rfl]
      cases ho : s.tornWrite blockSize n (.write p offset data time) with
      | none => exact ⟨rfl, ht⟩
      | some o => exact hother o ho
  | _ => exact ⟨rfl, ht⟩

/-- All of them. -/
theorem foldl_tornWrite (hf : s.durable f = true) (surviving : Nat → Nat) :
    ∀ (log : List (PendingOp × Nat)) (t : FsState), t.persistedFiles.contains f = true →
      (((log.filterMap fun x => s.tornWrite blockSize (surviving x.2) x.1).foldl
            FsState.applyOpToPersisted t).storedContent f
          = log.foldl (fun c x => tear blockSize (blocksAt blockSize (surviving x.2) f x.1) c x.1)
              (t.storedContent f))
        ∧ ((log.filterMap fun x => s.tornWrite blockSize (surviving x.2) x.1).foldl
            FsState.applyOpToPersisted t).persistedFiles.contains f = true
  | [], _, ht => ⟨rfl, ht⟩
  | x :: log, t, ht => by
    obtain ⟨hcontent, hhas⟩ := tornWrite_storedContent hf t ht (surviving x.2) x.1
    obtain ⟨hrest, hhas'⟩ := foldl_tornWrite hf surviving log _ hhas
    rw [hcontent] at hrest
    cases ho : s.tornWrite blockSize (surviving x.2) x.1 with
    | none =>
      simp only [List.filterMap_cons, ho, List.foldl_cons]
      rw [ho] at hrest hhas'
      exact ⟨hrest, hhas'⟩
    | some o =>
      simp only [List.filterMap_cons, ho, List.foldl_cons]
      rw [ho] at hrest hhas'
      exact ⟨hrest, hhas'⟩

/-- **What a crash leaves in a durable file**: of every write recorded under its name, the blocks
that were drawn. -/
theorem crash_storedContent (hb : s.blockSize = some blockSize) (hf : s.durable f = true)
    (surviving : Nat → Nat) : (s.crash surviving).storedContent f
        = s.pending.zipIdx.foldl
            (fun c x => tear blockSize (blocksAt blockSize (surviving x.2) f x.1) c x.1)
            (s.storedContent f)
      ∧ (s.crash surviving).durable f = true := by
  have hf' := hf
  rw [FsState.durable, Bool.and_eq_true] at hf'
  obtain ⟨hcontent, hhas⟩ := foldl_tornWrite hf surviving s.pending.zipIdx s hf'.1
  have hsynced := FsState.applyTornWrites_keeps FsState.syncedEntries
    (fun _ _ _ _ _ => rfl) s blockSize surviving
  rw [← FsState.applyTornWrites] at hcontent hhas
  rw [← hcontent]
  simp [FsState.crash, hb, FsState.durable, FsState.storedContent, hsynced, hf'.2, hhas]

end Crash

/-- **Torn writes stay inside their own files exactly if** every pending write under a durable name
was addressed to the file stored there. -/
theorem inside_iff {t : Tracked} {blockSize : Nat} (hmatch : t.Matches)
    (hb : t.fs.blockSize = some blockSize) (hpos : 0 < blockSize) : t.Inside ↔ t.Own := by
  constructor
  · intro h p offset data time file hmem hdata hp
    obtain ⟨i, hi⟩ := List.mem_iff_getElem?.mp hmem
    have hblocks : 0 < (data.length + blockSize - 1) / blockSize :=
      Nat.div_pos (by have := List.length_pos_iff.mpr hdata; omega) hpos
    have hsynced : t.fs.syncedEntries.contains p = true := by
      rw [FsState.durable, Bool.and_eq_true] at hp
      exact hp.2
    -- one block of every write survives
    refine (h blockSize hb p hp fun _ => 1).own i offset data time file _ hi
      (if_neg (not_or.mpr ⟨by simp [hsynced], not_or.mpr ⟨by omega, by omega⟩⟩))
  · intro h blockSize' hb' f hf surviving
    cases hb.symm.trans hb'
    obtain ⟨hcontent, hkeeps⟩ := crash_storedContent hb hf surviving
    refine ⟨hkeeps, fun i offset data time file o hi htorn => ?_, ?_⟩
    · refine h f offset data time file (List.mem_of_getElem? hi) ?_ hf
      rintro rfl
      simp [FsState.tornWrite, Nat.div_eq_of_lt (by omega : blockSize - 1 < blockSize)] at htorn
    · refine ⟨fun i => ((t.fs.pending[i]?).map (blocksAt blockSize (surviving i) f)).getD 0, ?_⟩
      have hpending : t.fs.pending = t.log.map Prod.fst := hmatch.symm
      rw [hcontent, hpending, List.zipIdx_map, List.foldl_map]
      refine List.foldl_ext _ _ _ fun c x hx => ?_
      obtain ⟨⟨op, file⟩, i⟩ := x
      have hi : t.log[i]? = some (op, file) := List.mem_zipIdx_iff_getElem?.mp hx
      simp only [Prod.map, id, List.getElem?_map, hi, Option.map_some, Option.getD_some]
      split
      · rfl
      · rename_i hfile
        exact tear_of_foreign hpos fun offset data time hop hdata =>
          hfile (h f offset data time file (hop ▸ List.mem_of_getElem? hi) hdata hf)

/-! ## 3. Runs -/

/-- The condition on a call: a write to a durable name goes to the file stored under it, and a
`sync_dir` leaves no durable name with the pending writes of another file than the one it puts
there. -/
def Safe (t : Tracked) : FsOp → Prop
  | .writeFile p _ data _ => data ≠ [] → t.fs.durable p = true → t.means p = t.inode p
  | .syncDir d _ => t.fs.dirExists d = true → ∀ p offset data time file,
    (.write p offset data time, file) ∈ t.log → data ≠ [] →
      (t.flushed d).1.durable p = true → file = (t.flushed d).2 p
  | _ => True

/-- What the runs keep. -/
structure Sound (t : Tracked) : Prop where
  matched : t.Matches
  own : t.Own

theorem sound_new (config : FsConfig) : (new config).Sound :=
  ⟨matches_new config, fun _ _ _ _ _ h => nomatch h⟩

/-- Whether the writes are at their files depends on what is stored, and on the log. -/
theorem own_congr {t t' : Tracked} (hinode : t'.inode = t.inode)
    (hfiles : t'.fs.persistedFiles = t.fs.persistedFiles)
    (hentries : t'.fs.syncedEntries = t.fs.syncedEntries) :
    t'.Own ↔ ∀ p offset data time file, (.write p offset data time, file) ∈ t'.log → data ≠ [] →
      t.fs.durable p = true → file = t.inode p := by
  simp only [Own, FsState.durable, hinode, hfiles, hentries]

theorem Own.flushFile {t : Tracked} (h : t.Own) (p : Path) : (t.flushFile p).Own := by
  cases hp : t.fs.fileExists p with
  | false => simpa [Tracked.flushFile, hp] using h
  | true =>
    obtain ⟨files, f, heq, -, -, hother⟩ := FsState.flushFile_spec hp
    intro q offset data time file hmem hdata hq
    simp only [Tracked.flushFile, if_pos hp, List.mem_filter] at hmem hq ⊢
    obtain ⟨hmem, hdataOf⟩ := hmem
    have hqp : q ≠ p := by simpa [FsState.isDataOf] using hdataOf
    have hinode : (if t.fs.persistedFiles.contains p then t.inode
        else Function.update t.inode p (t.means p)) q = t.inode q := by
      split
      · rfl
      · exact Function.update_of_ne hqp _ _
    rw [hinode]
    refine h q offset data time file hmem hdata ?_
    simpa [heq, FsState.durable, IndexMap.contains, hother q hqp] using hq

/-- **One call** keeps the writes at their files exactly if it meets its condition. -/
theorem Sound.step_iff {t : Tracked} (h : t.Sound) (op : FsOp) : (t.step op).Sound ↔ t.Safe op := by
  have hown : (t.step op).Sound ↔ (t.step op).Own := ⟨Sound.own, fun ho => ⟨h.matched.step op, ho⟩⟩
  rw [hown]
  -- a call that queues something stores nothing
  have hqueue : ∀ o, FsState.queued op = some o → ((t.step op).Own ↔
      ∀ p offset data time, o = .write p offset data time → data ≠ [] →
        t.fs.durable p = true → t.means p = t.inode p) := by
    intro o ho
    obtain ⟨⟨hinode, hfiles, hentries⟩, hlog⟩ := queue_cases (t := t) ho
    rw [own_congr hinode hfiles hentries]
    rcases hlog with ⟨hlog, -, hempty⟩ | ⟨hlog, -⟩
    · rw [hlog]
      exact ⟨fun _ p offset data time hw hdata => absurd (hempty p offset data time hw) hdata,
        fun _ => h.own⟩
    · rw [hlog]
      constructor
      · rintro hnew p offset data time rfl
        exact hnew p offset data time (t.means p) (by simp [about])
      · intro hnew p offset data time file hmem
        rcases List.mem_append.mp hmem with hmem | hmem
        · exact h.own p offset data time file hmem
        · obtain ⟨rfl, rfl⟩ := Prod.mk.inj (List.mem_singleton.mp hmem)
          exact hnew p offset data time rfl
  cases op with
  | writeFile p offset data time =>
    rw [hqueue _ rfl]
    constructor
    · exact fun hw => hw p offset data time rfl
    · rintro hw _ _ _ _ ⟨⟩
      exact hw
  | syncFile p => exact iff_of_true (h.own.flushFile p) trivial
  | syncFileData p => exact iff_of_true (h.own.flushFile p) trivial
  | syncDir d time =>
    cases hd : t.fs.dirExists d with
    | false =>
      have hsame : t.step (.syncDir d time) = t := by simp [step, flushDir, hd]
      rw [hsame]
      exact iff_of_true h.own fun hd' => by simp [hd] at hd'
    | true =>
      obtain ⟨hfiles, hentries, -⟩ := h.matched.flushDir hd time
      have hfs : (t.step (.syncDir d time)).fs = (t.fs.syncDir d time).1 := flushDir_fs t d time
      simp only [Own, Safe, hd, hfs, FsState.durable, hfiles, hentries, forall_const]
      simp [step, flushDir, hd, FsState.affectsDir]
  | crash surviving => exact iff_of_true (fun _ _ _ _ _ hmem => absurd hmem List.not_mem_nil) trivial
  | _ =>
    refine (hqueue _ rfl).trans (iff_of_true ?_ trivial)
    rintro _ _ _ _ ⟨⟩

/-- **Torn writes stay inside their own files** in every state of a run, exactly if every call of
the run meets its condition. -/
theorem torn_writes_stay_inside_iff (config : FsConfig) {blockSize : Nat}
    (hb : config.blockSize = some blockSize) (hpos : 0 < blockSize) (ops : List FsOp) :
    (∀ pre, pre <+: ops → ((new config).run pre).Inside) ↔ Along step Safe (new config) ops := by
  have hstep : ∀ t op, Sound t → (Sound (step t op) ↔ Safe t op) := fun _ op h => h.step_iff op
  rw [← along_iff hstep ops (sound_new config)]
  have hmatched : ∀ (ops : List FsOp) (t : Tracked), t.Matches → (t.run ops).Matches := by
    intro ops
    induction ops with
    | nil => exact fun _ h => h
    | cons op ops ih => exact fun t h => ih _ (h.step op)
  refine forall₂_congr fun pre _ => ?_
  have hm := hmatched pre _ (matches_new config)
  have hsize : ((new config).run pre).fs.blockSize = some blockSize := by
    rw [run_fs, FsState.run_blockSize]
    exact hb
  rw [inside_iff hm hsize hpos]
  exact ⟨fun h => ⟨hm, h⟩, Sound.own⟩

/-- Blocks of eight bytes. -/
def eightByteBlocks : FsConfig := { FsConfig.default with blockSize := some 8 }

/-- A durable file `f` of one byte. -/
def durableByte : List FsOp :=
  [.createFile (Path.abs ["f"]) 0 0o644, .writeFile (Path.abs ["f"]) 0 [65] 0,
    .syncFile (Path.abs ["f"]), .syncDir Path.root 0]

/-- A write to the durable file itself. -/
theorem torn_writes_stay_inside_own_write : ((new eightByteBlocks).run
    (durableByte ++ [.writeFile (Path.abs ["f"]) 0 [66] 1])).Inside := by
  refine (torn_writes_stay_inside_iff eightByteBlocks rfl (by decide)
    (durableByte ++ [.writeFile (Path.abs ["f"]) 0 [66] 1])).mpr ?_ _ List.prefix_rfl
  refine ⟨trivial, fun _ h => absurd h (by decide), trivial, ?_, fun _ _ => by decide, trivial⟩
  intro _ p offset data time file hmem
  have hlog : (((new eightByteBlocks).run (durableByte.take 3)).log)
      = [(.createFile (Path.abs ["f"]) 0 0o644, 1)] := by decide
  replace hmem : (PendingOp.write p offset data time, file)
      ∈ ((new eightByteBlocks).run (durableByte.take 3)).log := hmem
  rw [hlog] at hmem
  simp at hmem

/-- The durable file is unlinked and another one created in its place and written; nothing of it
is synced. -/
def nameReused : List FsOp :=
  durableByte ++ [.unlink (Path.abs ["f"]), .createFile (Path.abs ["f"]) 1 0o644,
    .writeFile (Path.abs ["f"]) 0 [66] 1]

/-- **The name is taken again**, and the write to the new file alters the old one. -/
theorem torn_write_alters_unlinked_file :
    ¬ ∀ (config : FsConfig) (blockSize : Nat), config.blockSize = some blockSize → 0 < blockSize →
      ∀ ops, ((new config).run ops).Inside := by
  intro h
  obtain ⟨blocks, hcontent⟩ := (h eightByteBlocks 8 rfl (by decide) nameReused 8 rfl
    (Path.abs ["f"]) (by decide) fun _ => 1).content
  have hcrash : (((new eightByteBlocks).run nameReused).fs.crash fun _ => 1).storedContent
      (Path.abs ["f"]) = [66] := by decide
  have hstored : ((new eightByteBlocks).run nameReused).fs.storedContent (Path.abs ["f"])
      = [65] := by decide
  have hinode : ((new eightByteBlocks).run nameReused).inode (Path.abs ["f"]) = 1 := by decide
  -- the new file is number 4: a call that queues something uses a number up
  have hlog : ((new eightByteBlocks).run nameReused).log
      = [(.removeFile (Path.abs ["f"]), 0), (.createFile (Path.abs ["f"]) 1 0o644, 4),
        (.write (Path.abs ["f"]) 0 [66] 1, 4)] := by decide
  rw [hcrash, hstored, hinode, hlog] at hcontent
  simp at hcontent

end Tracked

end Turmoil.Fs
