/-
# Histories of filesystem calls

A history is a list of calls of `FsState`'s methods, with the arguments the caller chose and,
for a crash, the number of blocks of each pending write that the random generator let through.
`run` is the state after a history, and `trace` the history with the outcome of each call.
-/
import Turmoil.Lib.Run
import Turmoil.Fs.Sync

namespace Turmoil.Fs

/-- One call. -/
inductive FsOp where
  | mkdir (path : Path) (time : Duration) (mode : Nat)
  | createFile (path : Path) (time : Duration) (mode : Nat)
  | symlink (path target : Path) (time : Duration)
  | hardLink (path target : Path) (time : Duration)
  | writeFile (path : Path) (offset : Nat) (data : List UInt8) (time : Duration)
  | setFileLen (path : Path) (len : Nat) (time : Duration)
  | setPermissions (path : Path) (mode : Nat) (time : Duration)
  | rename (src dst : Path)
  | unlink (path : Path)
  | rmdir (path : Path)
  | syncFile (path : Path)
  | syncFileData (path : Path)
  | syncDir (path : Path) (time : Duration)
  | crash (surviving : Nat → Nat)

namespace FsState

/-- The effect of one call. -/
def apply (s : FsState) : FsOp → FsResult
  | .mkdir path time mode => s.mkdirWithMode path time mode
  | .createFile path time mode => (s.createFileWithMode path time mode, .ok ())
  | .symlink path target time => s.createSymlink path target time
  | .hardLink path target time => s.createHardLink path target time
  | .writeFile path offset data time => (s.writeFile path offset data time, .ok ())
  | .setFileLen path len time => (s.setFileLen path len time, .ok ())
  | .setPermissions path mode time => s.setPermissions path mode time
  | .rename src dst => s.rename src dst
  | .unlink path => s.unlink path
  | .rmdir path => s.rmdir path
  | .syncFile path => s.syncFile path
  | .syncFileData path => s.syncFileData path
  | .syncDir path time => s.syncDir path time
  | .crash surviving => (s.crash surviving, .ok ())

/-- The state after a history. -/
def run (s : FsState) (ops : List FsOp) : FsState := runAll (fun s op => (s.apply op).1) s ops

@[simp] theorem run_nil (s : FsState) : s.run [] = s := rfl

@[simp] theorem run_cons (s : FsState) (op : FsOp) (ops : List FsOp) :
    s.run (op :: ops) = (s.apply op).1.run ops := rfl

/-- Every call of the history met a condition on the state it was made in. -/
abbrev Along (cond : FsState → FsOp → Prop) : FsState → List FsOp → Prop :=
  Turmoil.Along (fun s op => (s.apply op).1) cond

/-! ## What each call can do -/

section Cases

variable (s : FsState)

/-- The three tests a creation makes before it queues anything. -/
theorem nothing_at {p : Path}
    (h : ¬ (s.fileExists p || s.dirExists p || s.symlinkExists p) = true) :
    s.entryKind p = none := by
  simp only [Bool.or_eq_true, not_or, Bool.not_eq_true] at h
  exact entryKind_eq_none_iff.mpr ⟨h.1.1, h.1.2, h.2⟩

/-- `mkdir` fails and changes nothing, or queues a creation where nothing is. -/
theorem mkdir_cases (p : Path) (time : Duration) (mode : Nat) :
    (∃ e, s.mkdirWithMode p time mode = (s, .error e))
      ∨ (s.mkdirWithMode p time mode = (s.push (.createDir p time mode), .ok ())
        ∧ s.parentExists p = true ∧ s.entryKind p = none) := by
  have hpar : s.mkdirWithMode p time mode = if !s.parentExists p then (s, .error .noSuchFile)
      else if s.dirExists p || s.fileExists p || s.symlinkExists p then (s, .error .fileExists)
      else (s.push (.createDir p time mode), .ok ()) := by
    unfold mkdirWithMode parentExists
    cases p.parent <;> simp
  rw [hpar]
  split
  · exact Or.inl ⟨_, rfl⟩
  · rename_i hp
    split
    · exact Or.inl ⟨_, rfl⟩
    · rename_i hno
      exact Or.inr ⟨rfl, by simpa using hp, s.nothing_at (by rwa [Bool.or_comm (s.fileExists p)])⟩

theorem createSymlink_cases (p target : Path) (time : Duration) :
    (∃ e, s.createSymlink p target time = (s, .error e))
      ∨ (s.createSymlink p target time = (s.push (.createSymlink p target time), .ok ())
        ∧ s.parentExists p = true ∧ s.entryKind p = none) := by
  unfold createSymlink
  split
  · exact Or.inl ⟨_, rfl⟩
  · rename_i hp
    split
    · exact Or.inl ⟨_, rfl⟩
    · rename_i hno
      exact Or.inr ⟨rfl, by simpa using hp, s.nothing_at hno⟩

theorem createHardLink_cases (p target : Path) (time : Duration) :
    (∃ e, s.createHardLink p target time = (s, .error e))
      ∨ (s.createHardLink p target time = (s.push (.createHardLink p target time), .ok ())
        ∧ s.parentExists p = true ∧ s.entryKind p = none ∧ s.entryKind target = some .file) := by
  unfold createHardLink
  split
  · exact Or.inl ⟨_, rfl⟩
  · rename_i hp
    split
    · exact Or.inl ⟨_, rfl⟩
    · rename_i ht
      split
      · exact Or.inl ⟨_, rfl⟩
      · rename_i hno
        exact Or.inr ⟨rfl, by simpa using hp, s.nothing_at hno,
          fileExists_iff.mp (by simpa using ht)⟩

theorem unlink_cases (p : Path) :
    (∃ e, s.unlink p = (s, .error e))
      ∨ (s.unlink p = ((s.invalidateCache p).push (.removeFile p), .ok ())
        ∧ (s.entryKind p = some .file ∨ s.entryKind p = some .symlink)) := by
  unfold unlink
  split
  · exact Or.inl ⟨_, rfl⟩
  · rename_i h
    refine Or.inr ⟨rfl, ?_⟩
    rw [← fileExists_iff, ← symlinkExists_iff]
    revert h
    cases s.fileExists p <;> cases s.symlinkExists p <;> simp

theorem rmdir_cases (p : Path) :
    (∃ e, s.rmdir p = (s, .error e))
      ∨ (s.rmdir p = (s.push (.removeDir p), .ok ()) ∧ s.entryKind p = some .directory
        ∧ s.dirHasChildren p = false) := by
  unfold rmdir
  split
  · exact Or.inl ⟨_, rfl⟩
  · rename_i hd
    split
    · exact Or.inl ⟨_, rfl⟩
    · rename_i hc
      exact Or.inr ⟨rfl, dirExists_iff.mp (by simpa using hd), by simpa using hc⟩

/-- `rename` queues a move of something that exists; a directory never meets a non-directory,
and only replaces a directory that the code finds empty. -/
theorem rename_cases (src dst : Path) :
    (∃ e, s.rename src dst = (s, .error e))
      ∨ (s.rename src dst = (s.push (.rename src dst), .ok ()) ∧ s.parentExists dst = true
        ∧ s.entryKind src ≠ none
        ∧ (s.entryKind src = some .directory →
            s.entryKind dst = none ∨ s.entryKind dst = some .directory)
        ∧ (s.entryKind src ≠ some .directory → s.entryKind dst ≠ some .directory)
        ∧ (s.entryKind dst = some .directory → s.dirHasChildren dst = false)) := by
  have hopt : ∀ k : Option EntryKind, k = none ∨ k = some .file ∨ k = some .directory
      ∨ k = some .symlink := by
    rintro (_ | _ | _ | _) <;> simp
  cases hp : s.parentExists dst with
  | false => exact Or.inl ⟨.noSuchFile, by simp [rename, hp]⟩
  | true =>
    rcases hopt (s.entryKind src) with hs | hs | hs | hs
    · exact Or.inl ⟨.noSuchFile, by
        simp [rename, hp, fileExists, dirExists, symlinkExists, hs]⟩
    all_goals
      rcases hopt (s.entryKind dst) with hd | hd | hd | hd <;>
        simp [rename, hp, fileExists, dirExists, symlinkExists, hs, hd]
    cases s.dirHasChildren dst <;> simp

theorem setPermissions_cases (p : Path) (mode : Nat) (time : Duration) :
    (∃ e, s.setPermissions p mode time = (s, .error e))
      ∨ s.setPermissions p mode time = (s.push (.setPermissions p mode time), .ok ()) := by
  unfold setPermissions
  split
  · exact Or.inl ⟨_, rfl⟩
  · exact Or.inr rfl

end Cases

/-- What a call queues, if it queues anything. -/
def queued : FsOp → Option PendingOp
  | .mkdir path time mode => some (.createDir path time mode)
  | .createFile path time mode => some (.createFile path time mode)
  | .symlink path target time => some (.createSymlink path target time)
  | .hardLink path target time => some (.createHardLink path target time)
  | .writeFile path offset data time => some (.write path offset data time)
  | .setFileLen path len time => some (.setLen path len time)
  | .setPermissions path mode time => some (.setPermissions path mode time)
  | .rename src dst => some (.rename src dst)
  | .unlink path => some (.removeFile path)
  | .rmdir path => some (.removeDir path)
  | _ => none

/-- **A call that is neither a sync nor a crash** fails or writes nothing and changes nothing, or
queues one operation; the cache aside. -/
theorem apply_queued (s : FsState) {op : FsOp} {o : PendingOp} (h : queued op = some o) :
    ((s.apply op).1 = s
        ∧ ((s.apply op).2.toBool = false ∨ ∃ p offset time, o = .write p offset [] time))
      ∨ (∃ cache, (s.apply op).1 = { s.push o with pageCache := cache })
        ∧ (s.apply op).2 = .ok () := by
  have hfail : ∀ {r : FsResult} {e : FsError}, r = (s, .error e) →
      r.1 = s ∧ (r.2.toBool = false ∨ ∃ p offset time, o = .write p offset [] time) := by
    rintro r e rfl
    exact ⟨rfl, Or.inl rfl⟩
  cases op with
  | mkdir p time mode =>
    cases h
    rcases s.mkdir_cases p time mode with ⟨e, he⟩ | ⟨he, -⟩
    · exact Or.inl (hfail he)
    · exact Or.inr ⟨⟨s.pageCache, congrArg Prod.fst he⟩, congrArg Prod.snd he⟩
  | createFile p time mode =>
    cases h
    exact Or.inr ⟨⟨s.pageCache, rfl⟩, rfl⟩
  | symlink p target time =>
    cases h
    rcases s.createSymlink_cases p target time with ⟨e, he⟩ | ⟨he, -⟩
    · exact Or.inl (hfail he)
    · exact Or.inr ⟨⟨s.pageCache, congrArg Prod.fst he⟩, congrArg Prod.snd he⟩
  | hardLink p target time =>
    cases h
    rcases s.createHardLink_cases p target time with ⟨e, he⟩ | ⟨he, -⟩
    · exact Or.inl (hfail he)
    · exact Or.inr ⟨⟨s.pageCache, congrArg Prod.fst he⟩, congrArg Prod.snd he⟩
  | writeFile p offset data time =>
    cases h
    cases data with
    | nil => exact Or.inl ⟨rfl, Or.inr ⟨p, offset, time, rfl⟩⟩
    | cons x data => exact Or.inr ⟨⟨s.pageCache, rfl⟩, rfl⟩
  | setFileLen p len time =>
    cases h
    exact Or.inr ⟨⟨_, rfl⟩, rfl⟩
  | setPermissions p mode time =>
    cases h
    rcases s.setPermissions_cases p mode time with ⟨e, he⟩ | he
    · exact Or.inl (hfail he)
    · exact Or.inr ⟨⟨s.pageCache, congrArg Prod.fst he⟩, congrArg Prod.snd he⟩
  | rename src dst =>
    cases h
    rcases s.rename_cases src dst with ⟨e, he⟩ | ⟨he, -⟩
    · exact Or.inl (hfail he)
    · exact Or.inr ⟨⟨s.pageCache, congrArg Prod.fst he⟩, congrArg Prod.snd he⟩
  | unlink p =>
    cases h
    rcases s.unlink_cases p with ⟨e, he⟩ | ⟨he, -⟩
    · exact Or.inl (hfail he)
    · exact Or.inr ⟨⟨_, congrArg Prod.fst he⟩, congrArg Prod.snd he⟩
  | rmdir p =>
    cases h
    rcases s.rmdir_cases p with ⟨e, he⟩ | ⟨he, -⟩
    · exact Or.inl (hfail he)
    · exact Or.inr ⟨⟨s.pageCache, congrArg Prod.fst he⟩, congrArg Prod.snd he⟩
  | syncFile p => cases h
  | syncFileData p => cases h
  | syncDir d time => cases h
  | crash surviving => cases h

/-- No call changes the block size. -/
theorem apply_blockSize (s : FsState) (op : FsOp) : (s.apply op).1.blockSize = s.blockSize := by
  have hflush : ∀ p, (s.flushFile p).1.blockSize = s.blockSize := by
    intro p
    cases h : s.fileExists p with
    | false => rw [flushFile_err h]
    | true =>
      obtain ⟨files, f, heq, -⟩ := flushFile_spec h
      rw [heq]
  have hqueue : ∀ o, queued op = some o → (s.apply op).1.blockSize = s.blockSize := by
    intro o ho
    rcases s.apply_queued ho with ⟨h, -⟩ | ⟨⟨cache, h⟩, -⟩ <;> rw [h]
    rfl
  cases op with
  | syncFile p => exact hflush p
  | syncFileData p => exact hflush p
  | syncDir d time =>
    cases h : s.dirExists d with
    | false => simp only [apply, syncDir_err h]
    | true =>
      obtain ⟨dirs, heq, -⟩ := syncDir_spec h time
      obtain ⟨files, dirs', links, hf⟩ := foldl_applyOp_eq (s.dirFlush d) s
      simp only [apply, heq, hf]
  | crash surviving =>
    simp only [apply, crash]
    cases hb : s.blockSize with
    | none => exact hb
    | some b =>
      obtain ⟨files, dirs', links, hf⟩ := foldl_applyOp_eq
        ((s.pending.zipIdx).filterMap fun x => s.tornWrite b (surviving x.2) x.1) s
      simp only [applyTornWrites, hf, hb]
  | _ => exact hqueue _ rfl

theorem run_blockSize (ops : List FsOp) : ∀ s : FsState, (s.run ops).blockSize = s.blockSize := by
  induction ops with
  | nil => exact fun _ => rfl
  | cons op ops ih => exact fun s => (ih _).trans (s.apply_blockSize op)

end FsState

end Turmoil.Fs
