/-
# Permission bits

`set_permissions` queues a record under a name, and nothing else.  Three things can be done with it
later, and the code does one of them.

A reader of the mode (`file_mode`, `dir_mode`) takes the newest record under the very name it is
asked for, a creation or a `set_permissions`, and the stored mode if there is none.  So the change
is seen as long as the file keeps its name (`modeOf_push`).  A rename moves no record, so the file
shows under its new name what that name shows anyway.  And no sync ever stores the change:
`sync_file` takes the data operations, `sync_dir` the creations, links, moves and removals, and the
record stays queued until a crash drops it.  What is on the disk is what the creations say; `Modes`
follows it through a flush, and does not look at `set_permissions` at all (`modes_foldl`).

**Section 3** follows one file from a successful `set_permissions` on: its name through renames, to
the next change of its permissions, its removal or a crash.  `permissions_follow_iff` is the exact
condition, on each call, for the mode to stay the one that was set, and, in each state, for it to
survive the syncs and a crash.
-/
import Turmoil.Fs.SyncView

namespace Turmoil.Fs

namespace FsState

/-! ## 1. What a reader sees -/

/-- The mode of a name, read as that of a file or of a directory. -/
def modeOf (s : FsState) : EntryKind → Path → Option Nat
  | .file => s.fileMode
  | .directory => s.dirMode
  | .symlink => fun _ => none

/-- The mode that a pending operation records under a name. -/
def modeRecord (kind : EntryKind) (p : Path) : PendingOp → Option Nat
  | .setPermissions q mode _ => if q = p ∧ kind ≠ .symlink then some mode else none
  | .createFile q _ mode => if q = p ∧ kind = .file then some mode else none
  | .createDir q _ mode => if q = p ∧ kind = .directory then some mode else none
  | _ => none

/-- The newest one. -/
def newestMode (kind : EntryKind) (p : Path) (log : List PendingOp) : Option Nat :=
  log.reverse.findSome? (modeRecord kind p)

/-- The modes of the stored files and directories. -/
structure Modes where
  files : Path → Option Nat
  dirs : Path → Option Nat

namespace Modes

def get (x : Modes) : EntryKind → Path → Option Nat
  | .file => x.files
  | .directory => x.dirs
  | .symlink => fun _ => none

/-- What storing an operation does to them.  There is no case for `set_permissions`. -/
def step (x : Modes) : PendingOp → Modes
  | .createFile p _ mode =>
    { x with files := Function.update x.files p (some ((x.files p).getD mode)) }
  | .createDir p _ mode =>
    { x with dirs := Function.update x.dirs p (some ((x.dirs p).getD mode)) }
  | .createHardLink p target _ =>
    match x.files target with
    | some mode => { x with files := Function.update x.files p (some mode) }
    | none => x
  | .rename src dst =>
    match x.files src with
    | some mode =>
      { x with files := Function.update (Function.update x.files src none) dst (some mode) }
    | none =>
      match x.dirs src with
      | some mode =>
        { x with dirs := Function.update (Function.update x.dirs src none) dst (some mode) }
      | none => x
  | .removeFile p => { x with files := Function.update x.files p none }
  | .removeDir p => { x with dirs := Function.update x.dirs p none }
  | _ => x

end Modes

/-- What is stored now. -/
def modes (s : FsState) : Modes where
  files p := (s.persistedFiles.get? p).map (·.mode)
  dirs p := (s.persistedDirs.get? p).map (·.mode)

theorem modeFrom_eq (created : PendingOp → Option (Path × Nat)) (base : Option Nat) (p : Path)
    (record : PendingOp → Option Nat)
    (hset : ∀ q mode time, record (.setPermissions q mode time) = if q = p then some mode else none)
    (hcreated : ∀ op, (∀ q mode time, op ≠ .setPermissions q mode time) →
      record op = (created op).bind fun c => if c.1 = p then some c.2 else none) :
    ∀ log : List PendingOp, modeFrom created base log p = (log.findSome? record).or base
  | [] => rfl
  | op :: log => by
    have ih := modeFrom_eq created base p record hset hcreated log
    rw [List.findSome?_cons]
    by_cases hop : ∃ q mode time, op = .setPermissions q mode time
    · obtain ⟨q, mode, time, rfl⟩ := hop
      by_cases hq : q = p <;> simp [modeFrom, hset, hq, ih]
    · have hne : ∀ q mode time, op ≠ .setPermissions q mode time :=
        fun q mode time h => hop ⟨q, mode, time, h⟩
      have hmode : modeFrom created base (op :: log) p = (created op).elim
          (modeFrom created base log p)
          fun c => if c.1 = p then some c.2 else modeFrom created base log p := by
        cases hc : created op with
        | none => cases op <;> first | exact absurd rfl (hne _ _ _) | simp [modeFrom, hc]
        | some c => cases op <;> first | exact absurd rfl (hne _ _ _) | simp [modeFrom, hc]
      rw [hmode, hcreated op hne]
      cases created op with
      | none => simp [ih]
      | some c => by_cases hc : c.1 = p <;> simp [hc, ih]

/-- **The reader of a mode**: the newest record under the name, or what is stored. -/
theorem modeOf_eq (s : FsState) (kind : EntryKind) (p : Path) :
    s.modeOf kind p = (newestMode kind p s.pending).or (s.modes.get kind p) := by
  cases kind with
  | file =>
    refine modeFrom_eq _ _ p (modeRecord .file p) (fun q mode time => by simp [modeRecord])
      (fun op hop => ?_) _
    cases op <;> simp [modeRecord] at hop ⊢
  | directory =>
    refine modeFrom_eq _ _ p (modeRecord .directory p) (fun q mode time => by simp [modeRecord])
      (fun op hop => ?_) _
    cases op <;> simp [modeRecord] at hop ⊢
  | symlink =>
    have hnone : newestMode .symlink p s.pending = none := by
      refine List.findSome?_eq_none_iff.mpr fun op _ => ?_
      cases op <;> simp [modeRecord]
    rw [hnone]
    rfl

theorem newestMode_append (kind : EntryKind) (p : Path) (log : List PendingOp) (op : PendingOp) :
    newestMode kind p (log ++ [op]) = (modeRecord kind p op).or (newestMode kind p log) := by
  rw [newestMode, List.reverse_append, List.reverse_singleton, List.singleton_append,
    List.findSome?_cons, newestMode]
  cases modeRecord kind p op <;> rfl

/-- **A queued operation** changes the mode of a name if it records one. -/
theorem modeOf_push {s t : FsState} {op : PendingOp} (hp : t.pending = s.pending ++ [op])
    (hfiles : t.persistedFiles = s.persistedFiles) (hdirs : t.persistedDirs = s.persistedDirs)
    (kind : EntryKind) (p : Path) :
    t.modeOf kind p = (modeRecord kind p op).or (s.modeOf kind p) := by
  rw [modeOf_eq, modeOf_eq, hp, newestMode_append, Option.or_assoc, modes, hfiles, hdirs, ← modes]

/-! ## 2. What a sync stores -/

/-- Modes follow the operations, but for a change of permissions. -/
theorem modes_applyOp (s : FsState) {op : PendingOp}
    (hop : ∀ p mode time, op ≠ .setPermissions p mode time) :
    (s.applyOpToPersisted op).modes = s.modes.step op := by
  cases op with
  | createFile p time mode =>
    simp only [applyOpToPersisted, modes, Modes.step, Modes.mk.injEq, and_true]
    funext q
    by_cases hq : q = p
    · subst hq
      cases h : s.persistedFiles.get? q <;> simp [h, FileData.withMode]
    · simp [hq]
  | createDir p time mode =>
    simp only [applyOpToPersisted, modes, Modes.step, Modes.mk.injEq, true_and]
    funext q
    by_cases hq : q = p
    · subst hq
      cases h : s.persistedDirs.get? q <;> simp [h, DirData.withMode]
    · simp [hq]
  | createHardLink p target time =>
    cases h : s.persistedFiles.get? target with
    | none => simp [applyOpToPersisted, modes, Modes.step, h]
    | some f =>
      simp only [applyOpToPersisted, modes, Modes.step, h, Option.map_some, Modes.mk.injEq,
        and_true]
      funext q
      by_cases hq : q = p
      · simp [hq]
      · by_cases ht : q = target
        · subst ht
          simp [hq, h]
        · simp [hq, ht]
  | rename src dst =>
    cases h : s.persistedFiles.get? src with
    | some f =>
      simp only [applyOpToPersisted, modes, Modes.step, h, Option.map_some, Modes.mk.injEq,
        and_true]
      funext q
      by_cases hq : q = dst
      · simp [hq]
      · by_cases hs : q = src
        · subst hs
          simp [hq]
        · simp [hq, hs]
    | none =>
      cases h' : s.persistedDirs.get? src with
      | some f =>
        simp only [applyOpToPersisted, modes, Modes.step, h, h', Option.map_some, Option.map_none,
          Modes.mk.injEq, true_and]
        funext q
        by_cases hq : q = dst
        · simp [hq]
        · by_cases hs : q = src
          · subst hs
            simp [hq]
          · simp [hq, hs]
      | none =>
        cases h'' : s.persistedSymlinks.get? src <;>
          simp [applyOpToPersisted, modes, Modes.step, h, h', h'']
  | removeFile p =>
    simp only [applyOpToPersisted, modes, Modes.step, Modes.mk.injEq, and_true]
    funext q
    by_cases hq : q = p <;> simp [hq]
  | removeDir p =>
    simp only [applyOpToPersisted, modes, Modes.step, Modes.mk.injEq, true_and]
    funext q
    by_cases hq : q = p <;> simp [hq]
  | write p offset data time =>
    simp only [applyOpToPersisted, modes, Modes.step, Modes.mk.injEq, and_true]
    funext q
    by_cases hq : q = p <;> simp [hq, Function.comp_def, FileData.applyWrite]
  | setLen p len time =>
    simp only [applyOpToPersisted, modes, Modes.step, Modes.mk.injEq, and_true]
    funext q
    by_cases hq : q = p <;> simp [hq, Function.comp_def, FileData.applySetLen]
  | setPermissions p mode time => exact absurd rfl (hop p mode time)
  | createSymlink p target time => rfl

/-- **A flush** stores what the creations say. -/
theorem modes_foldl : ∀ {log : List PendingOp} (s : FsState),
    (∀ op ∈ log, ∀ p mode time, op ≠ .setPermissions p mode time) →
    (log.foldl applyOpToPersisted s).modes = log.foldl Modes.step s.modes
  | [], _, _ => rfl
  | op :: log, s, h => by
    rw [List.foldl_cons, modes_foldl _ fun o ho => h o (List.mem_cons_of_mem _ ho),
      modes_applyOp s (h op List.mem_cons_self), List.foldl_cons]

/-- **`sync_dir` stores no change of permissions**, and keeps it queued. -/
theorem syncDir_modes {s : FsState} {d : Path} (h : s.dirExists d = true) (time : Duration) :
    (s.syncDir d time).1.modes = (s.dirFlush d).foldl Modes.step s.modes
      ∧ (s.syncDir d time).1.pending = s.dirKeep d
      ∧ (s.syncDir d time).1.syncedEntries
        = (s.dirFlush d).foldl (syncEntry d) s.syncedEntries := by
  have hflush : ∀ op ∈ s.dirFlush d, ∀ p mode time, op ≠ .setPermissions p mode time := by
    rintro op hop p mode time rfl
    simp [dirFlush, affectsDir] at hop
  have hfold := foldl_flushDirOp d (s.dirKeep d) (s.dirFlush d) s s.syncedEntries
  have hmodes : ∀ (entries : IndexMap Path Unit) (pending : List PendingOp) (dirs),
      (∀ q, (dirs.get? q).map DirData.mode = (((s.dirFlush d).foldl applyOpToPersisted
        s).persistedDirs.get? q).map DirData.mode) →
      ({ (s.dirFlush d).foldl applyOpToPersisted s with
        syncedEntries := entries, pending := pending, persistedDirs := dirs } : FsState).modes
          = (s.dirFlush d).foldl Modes.step s.modes := by
    intro entries pending dirs hdirs
    rw [← modes_foldl s hflush, modes, modes]
    simp only [Modes.mk.injEq, true_and]
    exact funext hdirs
  simp only [dirFlush, dirKeep] at hfold hmodes ⊢
  simp only [syncDir, h, Bool.not_true, Bool.false_eq_true, if_false]
  have hstart : ({ s with pending := s.pending.filter (fun op => !affectsDir d op) } : FsState)
      = { s with
          syncedEntries := s.syncedEntries
          pending := s.pending.filter (fun op => !affectsDir d op) } := rfl
  rw [hstart, hfold]
  split
  · refine ⟨hmodes _ _ _ fun q => ?_, rfl, rfl⟩
    rw [IndexMap.get?_modify]
    split
    · rename_i hq
      rw [hq, Option.map_map]
      rfl
    · rfl
  · exact ⟨hmodes _ _ _ fun q => rfl, rfl, rfl⟩

/-- The modes once `sync_file p` has made up an inode where there is none: its mode is that of the
FIRST pending creation. -/
def Modes.madeUp (x : Modes) (p : Path) (pending : List PendingOp) : Modes :=
  { x with
    files := Function.update x.files p (some ((x.files p).getD (pendingCreation pending p).2)) }

/-- A search that passes over the data operations does not miss them. -/
theorem findSome?_keep {β : Type} (p : Path) {f : PendingOp → Option β}
    (hf : ∀ op, isDataOf p op = true → f op = none) : ∀ log : List PendingOp,
      (log.filter fun op => !isDataOf p op).findSome? f = log.findSome? f
  | [] => rfl
  | op :: log => by
    have ih := findSome?_keep p hf log
    rw [List.filter_cons]
    cases hd : isDataOf p op with
    | true => simp [hf op hd, ih]
    | false => simp only [Bool.not_false, if_true, List.findSome?_cons, ih]

theorem pendingCreation_keep (p q : Path) (log : List PendingOp) :
    pendingCreation (log.filter fun op => !isDataOf p op) q = pendingCreation log q := by
  rw [pendingCreation, findSome?_keep p (fun op hop => ?_), pendingCreation]
  cases op <;> first | rfl | cases hop

theorem newestMode_keep (kind : EntryKind) (p q : Path) (log : List PendingOp) :
    newestMode kind q (log.filter fun op => !isDataOf p op) = newestMode kind q log := by
  rw [newestMode, ← List.filter_reverse, findSome?_keep p (fun op hop => ?_), newestMode]
  cases op <;> first | rfl | cases hop

/-- **`sync_file` stores no change of permissions**, and keeps it queued. -/
theorem flushFile_modes {s : FsState} {p : Path} (h : s.fileExists p = true) :
    (s.flushFile p).1.modes = s.modes.madeUp p s.pending
      ∧ (s.flushFile p).1.pending = s.pending.filter (fun op => !isDataOf p op)
      ∧ (s.flushFile p).1.syncedEntries = s.syncedEntries
      ∧ (s.flushFile p).1.persistedDirs = s.persistedDirs := by
  have hdata : ∀ op ∈ s.pending.filter (isDataOf p), ∀ q mode time,
      op ≠ .setPermissions q mode time := by
    rintro op hop q mode time rfl
    simp [isDataOf] at hop
  obtain ⟨files, f, heq, -⟩ := flushFile_spec h
  refine ⟨?_, by rw [heq], by rw [heq], by rw [heq]⟩
  have hkeep : ∀ (log : List PendingOp) (x : Modes), (∀ op ∈ log, isDataOf p op = true) →
      log.foldl Modes.step x = x := by
    intro log
    induction log with
    | nil => exact fun _ _ => rfl
    | cons op log ih =>
      intro x hlog
      have hop : x.step op = x := by
        have := hlog op List.mem_cons_self
        cases op <;> first | rfl | cases this
      rw [List.foldl_cons, hop, ih x fun o ho => hlog o (List.mem_cons_of_mem _ ho)]
  unfold flushFile
  simp only [h, Bool.not_true, Bool.false_eq_true, if_false]
  rw [modes_foldl _ hdata, hkeep _ _ fun op hop => (List.mem_filter.mp hop).2]
  simp only [modes, Modes.madeUp, Modes.mk.injEq, and_true]
  funext q
  cases hp : s.persistedFiles.get? p with
  | none =>
    have hno : s.persistedFiles.contains p = false := by rw [IndexMap.contains_eq_false, hp]
    simp only [hno, Bool.false_eq_true, if_false, pendingCreation_keep, IndexMap.get?_insert]
    by_cases hq : q = p <;> simp [hq, FileData.withMode]
  | some g =>
    have hyes : s.persistedFiles.contains p = true := IndexMap.contains_iff.mpr ⟨g, hp⟩
    rw [if_pos hyes]
    by_cases hq : q = p <;> simp [hq, hp]

/-- A made-up inode hides no mode. -/
theorem flushFile_modeOf {s : FsState} (q : Path) {kind : EntryKind} {p : Path} {m : Nat}
    (hm : s.modeOf kind p = some m) : (s.flushFile q).1.modeOf kind p = some m := by
  cases hq : s.fileExists q with
  | false => simpa [flushFile, hq] using hm
  | true =>
    obtain ⟨hmodes, hpending, -⟩ := flushFile_modes hq
    rw [modeOf_eq, hmodes, hpending, newestMode_keep]
    rw [modeOf_eq] at hm
    cases hnew : newestMode kind p s.pending with
    | some x =>
      rw [hnew] at hm
      exact hm
    | none =>
      rw [hnew, Option.none_or] at hm
      rw [Option.none_or]
      cases kind with
      | directory => exact hm
      | symlink => exact hm
      | file =>
        have hm : s.modes.files p = some m := hm
        by_cases hp : p = q
        · subst hp
          simp [Modes.get, Modes.madeUp, hm]
        · simpa [Modes.get, Modes.madeUp, hp] using hm

/-- **A crash without torn writes** leaves the stored modes of the durable names. -/
theorem crash_modeOf {s : FsState} (hb : s.blockSize = none) (surviving : Nat → Nat)
    (kind : EntryKind) (p : Path) : (s.crash surviving).modeOf kind p
      = if s.syncedEntries.contains p then s.modes.get kind p else none := by
  rw [modeOf_eq]
  have hpending : (s.crash surviving).pending = [] := rfl
  rw [hpending]
  cases kind <;> cases hs : s.syncedEntries.contains p <;>
    simp [newestMode, crash, hb, modes, Modes.get, hs]

/-- `sync_file` for a file; a directory has nothing of its own to sync. -/
def synced (s : FsState) (kind : EntryKind) (p : Path) : FsState :=
  if kind = .file then (s.syncFile p).1 else s

/-- The mode that `sync_file p` and `sync_dir d` leave on the disk: that of the stored inode, or of
the one made up for `p`, taken through the flush, if the name is durable then. -/
def durableMode (s : FsState) (kind : EntryKind) (p d : Path) : Option Nat :=
  if ((s.dirFlush d).foldl (syncEntry d) s.syncedEntries).contains p then
    ((s.dirFlush d).foldl Modes.step
      (if kind = .file then s.modes.madeUp p s.pending else s.modes)).get kind p
  else none

/-- **What both syncs make durable.** -/
theorem synced_crash_modeOf {s : FsState} {kind : EntryKind} {p d : Path}
    (hb : s.blockSize = none) (hfile : kind = .file → s.fileExists p = true)
    (hdir : (s.synced kind p).dirExists d = true) (time : Duration) (surviving : Nat → Nat) :
    ((((s.synced kind p).syncDir d time).1).crash surviving).modeOf kind p
      = s.durableMode kind p d := by
  obtain ⟨hmodes, hpending, hentries⟩ := syncDir_modes hdir time
  have hsize : (((s.synced kind p).syncDir d time).1).blockSize = none := by
    have hdirSize := (s.synced kind p).apply_blockSize (.syncDir d time)
    refine hdirSize.trans ?_
    unfold synced
    split
    · exact (s.apply_blockSize (.syncFile p)).trans hb
    · exact hb
  obtain ⟨hstart, hflush, hsame⟩ : (s.synced kind p).modes
        = (if kind = .file then s.modes.madeUp p s.pending else s.modes)
      ∧ (s.synced kind p).dirFlush d = s.dirFlush d
      ∧ (s.synced kind p).syncedEntries = s.syncedEntries := by
    unfold synced
    split
    · rename_i hk
      obtain ⟨hmodes, hpending, hentries, -⟩ := flushFile_modes (hfile hk)
      refine ⟨hmodes, ?_, hentries⟩
      have hp : (s.syncFile p).1.pending = s.pending.filter fun op => !isDataOf p op := hpending
      rw [dirFlush, hp, List.filter_filter, dirFlush]
      refine List.filter_congr fun op _ => ?_
      cases hd : isDataOf p op with
      | true => simp [affectsDir_of_data hd]
      | false => simp
    · exact ⟨rfl, rfl, rfl⟩
  rw [crash_modeOf hsize, hmodes, hentries, hflush, hstart, hsame]
  rfl

end FsState

/-! ## 3. Following a file -/

/-- A filesystem, and the name of a file or directory in it whose permissions were set. -/
structure Followed where
  fs : FsState
  /-- None once the permissions are set again, the file is removed or replaced, or the host
  crashes. -/
  name : Option Path

namespace Followed

/-- What a successful call does to the name. -/
def nameAfter (p : Path) : FsOp → Option Path
  | .rename src dst => if src = p then some dst else if dst = p then none else some p
  | .unlink q => if q = p then none else some p
  | .rmdir q => if q = p then none else some p
  | .setPermissions q _ _ => if q = p then none else some p
  | .crash _ => none
  | _ => some p

def step (f : Followed) (op : FsOp) : Followed where
  fs := (f.fs.apply op).1
  name := f.name.bind fun p => if (f.fs.apply op).2.toBool then nameAfter p op else some p

def run (f : Followed) (ops : List FsOp) : Followed := runAll step f ops

/-- Right after `set_permissions`. -/
def start (s : FsState) (p : Path) (mode : Nat) (time : Duration) : Followed :=
  ⟨(s.setPermissions p mode time).1, some p⟩

variable {kind : EntryKind} {m : Nat} {f : Followed}

/-- The mode that was set is the one reported. -/
def Reports (kind : EntryKind) (m : Nat) (f : Followed) : Prop :=
  ∀ p, f.name = some p → f.fs.modeOf kind p = some m

/-- And it would survive a crash, were the file and its parent synced now. -/
def Survives (kind : EntryKind) (m : Nat) (f : Followed) : Prop :=
  ∀ p, f.name = some p → f.fs.blockSize = none → ∀ d, p.parent = some d →
    (kind = .file → (f.fs.syncFile p).2 = .ok ()) →
    ∀ time, ((f.fs.synced kind p).syncDir d time).2 = .ok () →
    ∀ surviving, ((((f.fs.synced kind p).syncDir d time).1).crash surviving).modeOf kind p = some m

/-- The condition on a call: no creation records another mode under the name; a rename gives the
file a name that shows the mode already; and where `sync_dir` takes the newest record, what is left
shows it. -/
def Safe (kind : EntryKind) (m : Nat) (f : Followed) (op : FsOp) : Prop :=
  ∀ p, f.name = some p → match op with
    | .createFile q _ mode => q = p → kind = .file → mode = m
    | .mkdir q time mode =>
      (f.fs.mkdirWithMode q time mode).2.toBool = true → q = p → kind = .directory → mode = m
    | .rename src dst => (f.fs.rename src dst).2.toBool = true → src = p →
      (FsState.newestMode kind dst f.fs.pending).or (f.fs.modes.get kind dst) = some m
    | .syncDir d _ => f.fs.dirExists d = true → (FsState.newestMode kind p (f.fs.dirKeep d)).or
      (((f.fs.dirFlush d).foldl FsState.Modes.step f.fs.modes).get kind p) = some m
    | _ => True

/-- The condition on a state: the mode on the disk is the one that was set, though the change of
permissions is not what put it there. -/
def Lasts (kind : EntryKind) (m : Nat) (f : Followed) : Prop :=
  ∀ p, f.name = some p → f.fs.blockSize = none → ∀ d, p.parent = some d →
    (kind = .file → f.fs.fileExists p = true) → (f.fs.synced kind p).dirExists d = true →
    f.fs.durableMode kind p d = some m

theorem survives_iff : f.Survives kind m ↔ f.Lasts kind m := by
  refine forall₂_congr fun p _ => forall_congr' fun hb => forall₂_congr fun d _ => ?_
  have hfile : (kind = .file → (f.fs.syncFile p).2 = .ok ())
      ↔ (kind = .file → f.fs.fileExists p = true) := by
    refine forall_congr' fun _ => ?_
    cases hp : f.fs.fileExists p <;> simp [FsState.syncFile, FsState.flushFile, hp]
  have hdir : ∀ time, ((f.fs.synced kind p).syncDir d time).2 = .ok ()
      ↔ (f.fs.synced kind p).dirExists d = true := by
    intro time
    cases hd : (f.fs.synced kind p).dirExists d <;> simp [FsState.syncDir, hd]
  rw [hfile]
  refine forall_congr' fun hf => ⟨fun h hd => ?_, fun h time hd surviving => ?_⟩
  · rw [← FsState.synced_crash_modeOf hb hf hd 0 fun _ => 0]
    exact h 0 ((hdir 0).mpr hd) _
  · rw [FsState.synced_crash_modeOf hb hf ((hdir time).mp hd) time surviving]
    exact h ((hdir time).mp hd)

/-- A call that queues something shows in the mode if it records one, or if the name changes. -/
theorem Reports.queue_iff (h : f.Reports kind m) {p : Path} (hp : f.name = some p) {op : FsOp}
    {o : PendingOp} (ho : FsState.queued op = some o) : (f.step op).Reports kind m ↔
      ((f.fs.apply op).2.toBool = true → ∀ q, nameAfter p op = some q →
        (FsState.modeRecord kind q o).or (f.fs.modeOf kind q) = some m) := by
  have hname : (f.step op).name
      = if (f.fs.apply op).2.toBool then nameAfter p op else some p := by
    simp [step, hp]
  rw [Reports, hname]
  rcases f.fs.apply_queued ho with ⟨hsame, hwhy⟩ | ⟨⟨cache, hpush⟩, hok⟩
  · have hstate : (f.step op).fs = f.fs := hsame
    rw [hstate]
    rcases hwhy with hfail | ⟨q, offset, time, rfl⟩
    · rw [hfail]
      refine iff_of_true (fun q hq => ?_) (fun hok => nomatch hok)
      cases hq
      exact h p hp
    · have hafter : nameAfter p op = some p := by
        cases op <;> first | rfl | cases ho
      rw [hafter]
      refine iff_of_true (fun q hq => ?_) (fun _ q hq => ?_)
      · have hq : p = q := by simpa using hq
        exact hq ▸ h p hp
      · cases hq
        exact h p hp
  · have hok' : (f.fs.apply op).2.toBool = true := by rw [hok]; rfl
    have hmode : ∀ q, (f.step op).fs.modeOf kind q
        = (FsState.modeRecord kind q o).or (f.fs.modeOf kind q) := by
      intro q
      have hstate : (f.step op).fs = { f.fs.push o with pageCache := cache } := hpush
      rw [hstate]
      have hp : ({ f.fs.push o with pageCache := cache } : FsState).pending
          = f.fs.pending ++ [o] := rfl
      exact FsState.modeOf_push hp rfl rfl kind q
    simp only [hok', if_true, forall_const, hmode]

/-- **One call** keeps the mode reported exactly if it meets its condition. -/
theorem Reports.step_iff (h : f.Reports kind m) (op : FsOp) :
    (f.step op).Reports kind m ↔ f.Safe kind m op := by
  cases hp : f.name with
  | none =>
    have hname : (f.step op).name = none := by simp [step, hp]
    exact iff_of_true (fun p h => by simp [hname] at h) (fun p h => by simp [hp] at h)
  | some p =>
    have hm := h p hp
    -- a record is only a matter of what it says
    have hrecord : ∀ (c : Prop) [Decidable c] (mode : Nat),
        (if c then some mode else none).or (some m) = some m ↔ (c → mode = m) := by
      intro c _ mode
      by_cases hc : c <;> simp [hc]
    have hone : ∀ {P : Path → Prop}, (∀ q, some p = some q → P q) ↔ P p := by simp
    have hflush : ∀ q (g : Followed), g.name = some p → g.fs = (f.fs.flushFile q).1 →
        g.Reports kind m := by
      intro q g hname hfs p' hp'
      obtain rfl : p = p' := Option.some.inj (hname.symm.trans hp')
      rw [hfs]
      exact FsState.flushFile_modeOf q hm
    cases op with
    | mkdir q time mode =>
      rw [h.queue_iff hp rfl]
      simp only [Safe, hp, nameAfter, FsState.modeRecord, hm, hone, hrecord, FsState.apply, and_imp]
    | createFile q time mode =>
      rw [h.queue_iff hp rfl]
      have hok : (f.fs.apply (.createFile q time mode)).2.toBool = true := rfl
      simp only [Safe, hp, nameAfter, FsState.modeRecord, hm, hone, hrecord, hok, forall_const,
        and_imp]
    | rename src dst =>
      rw [h.queue_iff hp rfl]
      simp only [Safe, hp, nameAfter, FsState.modeRecord, FsState.apply, hone, Option.none_or,
        ← FsState.modeOf_eq]
      refine forall_congr' fun _ => ?_
      by_cases hs : src = p
      · simp [hs]
      · by_cases hd : dst = p <;> simp [hs, hd, hm]
    | syncFile q =>
      exact iff_of_true (hflush q _ (by simp [step, hp, nameAfter]) rfl) fun _ _ => trivial
    | syncFileData q =>
      exact iff_of_true (hflush q _ (by simp [step, hp, nameAfter]) rfl) fun _ _ => trivial
    | syncDir d time =>
      have hname : (f.step (.syncDir d time)).name = some p := by simp [step, hp, nameAfter]
      have hfs : (f.step (.syncDir d time)).fs = (f.fs.syncDir d time).1 := rfl
      simp only [Reports, Safe, hname, hfs, hp, hone]
      cases hd : f.fs.dirExists d with
      | false => simp [FsState.syncDir, hd, hm]
      | true =>
        obtain ⟨hmodes, hpending, -⟩ := FsState.syncDir_modes hd time
        rw [FsState.modeOf_eq, hmodes, hpending]
        simp
    | crash surviving =>
      have hname : (f.step (.crash surviving)).name = none := by
        rw [step, hp]
        rfl
      exact iff_of_true (fun q h => by simp [hname] at h) (fun _ _ => trivial)
    | setPermissions q mode time =>
      rw [h.queue_iff hp rfl]
      refine iff_of_true (fun _ r hr => ?_) (fun _ _ => trivial)
      by_cases hq : q = p
      · simp [nameAfter, hq] at hr
      · obtain rfl : p = r := by simpa [nameAfter, hq] using hr
        simp [FsState.modeRecord, hq, hm]
    | _ =>
      rw [h.queue_iff hp rfl]
      simp [Safe, hp, nameAfter, FsState.modeRecord, hm, FsState.apply]

/-- **Permission bits follow the file and become durable** exactly if every call meets its
condition, and every state the one for what is on the disk. -/
theorem permissions_follow_iff (config : FsConfig) (before : List FsOp) {p : Path} {m : Nat}
    {time : Duration} {kind : EntryKind}
    (hkind : ((FsState.new config).run before).entryKind p = some kind)
    (hok : (((FsState.new config).run before).setPermissions p m time).2 = .ok ())
    (ops : List FsOp) :
    (∀ pre, pre <+: ops →
        ((start ((FsState.new config).run before) p m time).run pre).Reports kind m
          ∧ ((start ((FsState.new config).run before) p m time).run pre).Survives kind m)
      ↔ Along step (Safe kind m) (start ((FsState.new config).run before) p m time) ops
        ∧ ∀ pre, pre <+: ops →
          ((start ((FsState.new config).run before) p m time).run pre).Lasts kind m := by
  generalize (FsState.new config).run before = s at hkind hok ⊢
  have hstart : (start s p m time).Reports kind m := by
    intro q hq
    cases hq
    have hpush : (s.setPermissions p m time).1 = s.push (.setPermissions p m time) := by
      rcases s.setPermissions_cases p m time with ⟨e, he⟩ | he
      · rw [he] at hok
        cases hok
      · rw [he]
    have hnot : kind ≠ .symlink := by
      rintro rfl
      simp [FsState.setPermissions, FsState.fileExists, FsState.dirExists, hkind] at hok
    have hp : (s.push (.setPermissions p m time)).pending
        = s.pending ++ [.setPermissions p m time] := rfl
    rw [start, hpush, FsState.modeOf_push hp rfl rfl]
    simp [FsState.modeRecord, hnot]
  have hstep : ∀ f op, Reports kind m f → (Reports kind m (step f op) ↔ Safe kind m f op) :=
    fun _ op h => h.step_iff op
  rw [← along_iff hstep ops hstart]
  simp only [survives_iff]
  exact ⟨fun h => ⟨fun pre hpre => (h pre hpre).1, fun pre hpre => (h pre hpre).2⟩,
    fun h pre hpre => ⟨h.1 pre hpre, h.2 pre hpre⟩⟩

/-- A file `f` of a given mode. -/
def fileOfMode (mode : Nat) : List FsOp := [.createFile (Path.abs ["f"]) 0 mode]

/-- It, and its mode set to 600. -/
def givenMode (mode : Nat) : Followed :=
  start ((FsState.new FsConfig.default).run (fileOfMode mode)) (Path.abs ["f"]) 0o600 1

/-- A file that is created with the mode it is then given: it is synced, and so is its directory. -/
theorem permissions_follow_created :
    ((givenMode 0o600).run [.syncFile (Path.abs ["f"])]).Reports .file 0o600
      ∧ ((givenMode 0o600).run [.syncFile (Path.abs ["f"])]).Survives .file 0o600 := by
  refine (@permissions_follow_iff FsConfig.default (fileOfMode 0o600) (Path.abs ["f"]) 0o600 1 .file
    (by decide) (by decide) [.syncFile (Path.abs ["f"])]).mpr ⟨⟨fun _ _ => trivial, trivial⟩, ?_⟩ _
      List.prefix_rfl
  have hlasts : ∀ f : Followed, f.name = some (Path.abs ["f"]) →
      f.fs.durableMode .file (Path.abs ["f"]) Path.root = some 0o600 → f.Lasts .file 0o600 := by
    intro f hname hmode p hp _ d hd _ _
    obtain rfl : Path.abs ["f"] = p := Option.some.inj (hname.symm.trans hp)
    obtain rfl : Path.root = d := Option.some.inj hd
    exact hmode
  intro pre hpre
  rcases List.prefix_cons_iff.mp hpre with rfl | ⟨rest, rfl, hrest⟩
  · exact hlasts _ rfl (by decide)
  · rw [List.prefix_nil.mp hrest]
    exact hlasts _ (by decide) (by decide)

/-- **The change is never stored:** a durable file of mode 644 is given mode 600; it and its
directory are synced, and a crash brings 644 back. -/
theorem permissions_lost_in_crash :
    ¬ ∀ (config : FsConfig) (before : List FsOp) (p : Path) (m : Nat) (time : Duration)
      (kind : EntryKind), ((FsState.new config).run before).entryKind p = some kind →
      (((FsState.new config).run before).setPermissions p m time).2 = .ok () →
      ∀ ops, ((start ((FsState.new config).run before) p m time).run ops).Reports kind m
        ∧ ((start ((FsState.new config).run before) p m time).run ops).Survives kind m := by
  intro h
  have hlost := (h FsConfig.default (fileOfMode 0o644) (Path.abs ["f"]) 0o600 1 .file (by decide)
    (by decide) []).2 (Path.abs ["f"]) rfl rfl Path.root rfl (fun _ => by decide) 2 (by decide)
    fun _ => 0
  exact absurd hlost (by decide)

end Followed

end Turmoil.Fs
