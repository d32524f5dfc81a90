/-
# Offsets as machine numbers

The functions of `Ops.lean`, `Shim.lean` and the ring compute with lengths and offsets as natural
numbers.  The source computes with `u64`: here are its functions once more, with every sum, every
difference and every product checked as in a build with overflow checks.

They compute what the unbounded ones compute in every state whose pending operations end within a
word (`Fits`), and a sync or a crash leaves such a state behind: an operation that was let in by one
of them is safe in all the others.  The one exception is `used_bytes`, which adds up all files and
all pending operations, and is right exactly if the whole sum is a word (`usedBytes_eq`).
-/
import Turmoil.Fs.Capacity
import Turmoil.Lib.Word

namespace Turmoil.Fs

open Word Buffer

namespace Machine

abbrev Checked (α : Type) : Type := Except Overflow α

/-! ## 1. The functions of `FsState` -/

def persistedLen (s : FsState) (path : Path) : Nat :=
  ((s.persistedFiles.get? path).map (·.content.length)).getD 0

/-- What `used_bytes` adds for one pending operation. -/
def usedStep (s : FsState) (total : Nat) : PendingOp → Checked Nat
  | .write path offset data _ => do
    let writeEnd ← add 64 offset data.length
    if writeEnd > persistedLen s path then
      let more ← sub writeEnd (persistedLen s path)
      add 64 total more
    else pure total
  | .setLen path len _ =>
    if len > persistedLen s path then do
      let more ← sub len (persistedLen s path)
      add 64 total more
    else pure total
  | _ => pure total

def usedBytes (s : FsState) : Checked Nat := do
  let total ← (s.persistedFiles.values.map (·.content.length)).foldlM (add 64) 0
  s.pending.foldlM (usedStep s) total

def checkSpace (s : FsState) (additionalBytes : Nat) : Checked (Except FsError Unit) :=
  match s.capacity with
  | none => pure (.ok ())
  | some cap => do
    let used ← usedBytes s
    pure (if min (used + additionalBytes) (2 ^ 64 - 1) > cap then .error .noSpace else .ok ())

def lenStep (s : FsState) (content : Path) (len : Nat) : PendingOp → Checked Nat
  | .write p offset data _ =>
    if s.addressesContent p content then do
      let writeEnd ← add 64 offset data.length
      pure (if writeEnd > len then writeEnd else len)
    else pure len
  | .setLen p newLen _ => pure (if s.addressesContent p content then newLen else len)
  | _ => pure len

def fileLenAt (s : FsState) (content : Path) : Checked Nat :=
  s.pending.foldlM (lenStep s content) (persistedLen s content)

def fileLen (s : FsState) (path : Path) : Checked (Option Nat) :=
  match s.resolveContentPath path with
  | none => pure none
  | some content => do
    let len ← fileLenAt s content
    pure (some len)

/-- The overlay of one pending write over the `toRead` bytes from `offset` on. -/
def overlayWrite (buf : List UInt8) (offset toRead writeOff : Nat) (data : List UInt8) :
    Checked (List UInt8) := do
  let writeEnd ← add 64 writeOff data.length
  let readEnd ← add 64 offset toRead
  if writeOff < readEnd ∧ writeEnd > offset then
    let overlapStart := max writeOff offset
    let overlapEnd := min writeEnd readEnd
    let srcOffset ← sub overlapStart writeOff
    let dstOffset ← sub overlapStart offset
    let len ← sub overlapEnd overlapStart
    let _ ← add 64 dstOffset len
    let _ ← add 64 srcOffset len
    pure (copyAt buf dstOffset ((data.drop srcOffset).take len))
  else pure buf

def readStep (s : FsState) (content : Path) (offset toRead : Nat) (buf : List UInt8) :
    PendingOp → Checked (List UInt8)
  | .write p writeOff data _ =>
    if s.addressesContent p content then overlayWrite buf offset toRead writeOff data else pure buf
  | _ => pure buf

/-- The zeros of the buffer, and the persisted bytes over them. -/
def readBase (s : FsState) (content : Path) (offset toRead : Nat) : Checked (List UInt8) :=
  let zeros : List UInt8 := List.replicate toRead 0
  match s.persistedFiles.get? content with
  | none => pure zeros
  | some f => do
    let readEnd ← add 64 offset toRead
    let persistedEnd := min f.content.length readEnd
    if offset < persistedEnd then
      let dstLen ← sub persistedEnd offset
      pure (copyAt zeros 0 ((f.content.drop offset).take dstLen))
    else pure zeros

def readFileAt (s : FsState) (content : Path) (offset toRead : Nat) : Checked (List UInt8) := do
  let buf ← readBase s content offset toRead
  s.pending.foldlM (readStep s content offset toRead) buf

def readFile (s : FsState) (path : Path) (bufLen offset : Nat) : Checked (Option (List UInt8)) :=
  if bufLen = 0 then pure (some [])
  else do
    match ← fileLen s path with
    | none => pure none
    | some len =>
      if offset ≥ len then pure (some [])
      else
        let available ← sub len offset
        match s.resolveContentPath path with
        | none => pure none
        | some content =>
          let filled ← readFileAt s content offset (min bufLen available)
          pure (some filled)

/-- `FileData` after a write that ends at `writeEnd`. -/
def writeUpTo (f : FileData) (offset writeEnd : Nat) (data : List UInt8) (time : Duration) :
    FileData :=
  { f with
    content := copyAt (if writeEnd > f.content.length then resize f.content writeEnd else f.content)
      offset data
    mtime := time
    ctime := time }

def applyOpToPersisted (s : FsState) : PendingOp → Checked FsState
  | .write path offset data time =>
    match s.persistedFiles.get? path with
    | none => pure s
    | some _ => do
      let writeEnd ← add 64 offset data.length
      pure { s with
        persistedFiles := s.persistedFiles.modify path fun f => writeUpTo f offset writeEnd data time }
  | op => pure (s.applyOpToPersisted op)

def tornWrite (s : FsState) (blockSize surviving : Nat) : PendingOp → Checked (Option PendingOp)
  | .write path offset data time =>
    let totalBlocks := (data.length + blockSize - 1) / blockSize
    let blocks := min surviving totalBlocks
    if s.syncedEntries.contains path = false ∨ totalBlocks = 0 ∨ blocks = 0 then pure none
    else do
      let bytes ← mul 64 blocks blockSize
      pure (some (.write path offset (data.take (min bytes data.length)) time))
  | _ => pure none

/-- The writes that `apply_torn_writes` collects. -/
def tornWrites (s : FsState) (blockSize : Nat) (surviving : Nat → Nat) :
    List (PendingOp × Nat) → Checked (List PendingOp)
  | [] => pure []
  | (op, i) :: rest => do
    let torn ← tornWrite s blockSize (surviving i) op
    let others ← tornWrites s blockSize surviving rest
    pure (torn.toList ++ others)

def applyTornWrites (s : FsState) (blockSize : Nat) (surviving : Nat → Nat) : Checked FsState := do
  let torn ← tornWrites s blockSize surviving s.pending.zipIdx
  torn.foldlM applyOpToPersisted s

def crash (s : FsState) (surviving : Nat → Nat) : Checked FsState := do
  let s ← match s.blockSize with
    | some b => applyTornWrites s b surviving
    | none => pure s
  pure { s with
    pending := []
    persistedFiles := s.persistedFiles.retainKeys s.syncedEntries.contains
    persistedDirs := s.persistedDirs.retainKeys s.syncedEntries.contains
    persistedSymlinks := s.persistedSymlinks.retainKeys s.syncedEntries.contains }

/-- The common body of `sync_file` and `sync_file_data`. -/
def flushFile (s : FsState) (path : Path) : Checked FsResult :=
  if !s.fileExists path then pure (s, .error .noSuchFile)
  else do
    let toFlush := s.pending.filter (FsState.isDataOf path)
    let toKeep := s.pending.filter (fun op => !FsState.isDataOf path op)
    let files := if s.persistedFiles.contains path then s.persistedFiles
      else
        let (crtime, mode) := FsState.pendingCreation toKeep path
        s.persistedFiles.insert path (FileData.withMode crtime mode)
    let s ← toFlush.foldlM applyOpToPersisted { s with persistedFiles := files, pending := toKeep }
    pure (s, .ok ())

def flushDirOp (path : Path) (s : FsState) (op : PendingOp) : Checked FsState :=
  applyOpToPersisted { s with syncedEntries := FsState.syncEntry path s.syncedEntries op } op

def syncDir (s : FsState) (path : Path) (time : Duration) : Checked FsResult :=
  if !s.dirExists path then pure (s, .error .noSuchFile)
  else do
    let toFlush := s.pending.filter (FsState.affectsDir path)
    let toKeep := s.pending.filter (fun op => !FsState.affectsDir path op)
    let s' ← toFlush.foldlM (flushDirOp path) { s with pending := toKeep }
    let s' := if toFlush.any (FsState.modifiesDir path) then
        { s' with
          persistedDirs :=
            s'.persistedDirs.modify path (fun d => { d with mtime := time, ctime := time }) }
      else s'
    pure (s', .ok ())

/-! ## 2. States that fit -/

/-- The operation's numbers are words, and so is its end; a slice is no longer than `isize::MAX`. -/
def OpFits : PendingOp → Prop
  | .write _ offset data _ => offset + data.length < 2 ^ 64 ∧ data.length < 2 ^ 63
  | .setLen _ len _ => len < 2 ^ 64
  | _ => True

/-- Every stored length is a word. -/
def WordSized (files : IndexMap Path FileData) : Prop :=
  ∀ p f, files.get? p = some f → f.content.length < 2 ^ 64

/-- **What every operation that was let in keeps.** -/
structure Fits (s : FsState) : Prop where
  pending : ∀ op ∈ s.pending, OpFits op
  stored : WordSized s.persistedFiles
  block : ∀ b, s.blockSize = some b → b < 2 ^ 64

variable {s : FsState}

theorem Fits.persistedLen_lt (h : Fits s) (p : Path) : persistedLen s p < 2 ^ 64 := by
  unfold persistedLen
  cases hget : s.persistedFiles.get? p with
  | none => exact Nat.two_pow_pos 64
  | some f => exact h.stored p f hget

/-! ## 3. The readers -/

/-- **`file_len` does not overflow**, and a length is a word. -/
theorem fileLenAt_eq (h : Fits s) (content : Path) :
    fileLenAt s content = .ok (s.fileLenAt content) ∧ s.fileLenAt content < 2 ^ 64 := by
  refine foldlM_eq_ok (I := fun len => len < 2 ^ 64) (h.persistedLen_lt content) ?_
  intro len op hmem hlen
  have hop := h.pending op hmem
  cases op with
  | write p offset data time =>
    obtain ⟨hend, -⟩ := hop
    by_cases ha : s.addressesContent p content
    · simp only [lenStep, if_pos ha, add_of_lt hend, ok_bind]
      refine ⟨rfl, ?_⟩
      split
      · exact hend
      · exact hlen
    · simp only [lenStep, if_neg ha]
      exact ⟨rfl, hlen⟩
  | setLen p newLen time =>
    refine ⟨rfl, ?_⟩
    show (if s.addressesContent p content then newLen else len) < 2 ^ 64
    split
    · exact hop
    · exact hlen
  | _ => exact ⟨rfl, hlen⟩

theorem fileLen_eq (h : Fits s) (path : Path) : fileLen s path = .ok (s.fileLen path) := by
  unfold fileLen FsState.fileLen
  cases s.resolveContentPath path with
  | none => rfl
  | some content =>
    simp only [(fileLenAt_eq h content).1, ok_bind]
    rfl

theorem fileLen_lt (h : Fits s) {path : Path} {len : Nat} (hlen : s.fileLen path = some len) :
    len < 2 ^ 64 := by
  obtain ⟨content, -, rfl⟩ := Option.map_eq_some_iff.mp hlen
  exact (fileLenAt_eq h content).2

/-- An overlaid write: both ends are words, and the differences are taken of what is larger. -/
theorem overlayWrite_eq {buf : List UInt8} {offset writeOff : Nat} {data : List UInt8}
    (hread : offset + buf.length < 2 ^ 64) (hwrite : writeOff + data.length < 2 ^ 64) :
    overlayWrite buf offset buf.length writeOff data
      = .ok (FsState.overlayWrite buf offset writeOff data) := by
  unfold overlayWrite FsState.overlayWrite
  rw [add_of_lt hwrite, ok_bind, add_of_lt hread, ok_bind]
  by_cases hov : writeOff < offset + buf.length ∧ writeOff + data.length > offset
  · rw [if_pos hov, if_pos hov]
    obtain ⟨h1, h2⟩ := hov
    have hsrc : writeOff ≤ max writeOff offset := Nat.le_max_left _ _
    have hdst : offset ≤ max writeOff offset := Nat.le_max_right _ _
    have hlen : max writeOff offset ≤ min (writeOff + data.length) (offset + buf.length) := by omega
    have hdstEnd : max writeOff offset - offset
        + (min (writeOff + data.length) (offset + buf.length) - max writeOff offset) < 2 ^ 64 := by
      omega
    have hsrcEnd : max writeOff offset - writeOff
        + (min (writeOff + data.length) (offset + buf.length) - max writeOff offset) < 2 ^ 64 := by
      omega
    simp only [sub_of_le hsrc, sub_of_le hdst, sub_of_le hlen, add_of_lt hdstEnd, add_of_lt hsrcEnd,
      ok_bind]
    rfl
  · rw [if_neg hov, if_neg hov]
    rfl

theorem length_overlayWrite (buf : List UInt8) (offset writeOff : Nat) (data : List UInt8) :
    (FsState.overlayWrite buf offset writeOff data).length = buf.length :=
  (FsState.overlayWrite_spec buf offset writeOff data).1

theorem readBase_eq {content : Path} {offset toRead : Nat}
    (hread : offset + toRead < 2 ^ 64) :
    ∃ buf, readBase s content offset toRead = .ok buf ∧ buf.length = toRead
      ∧ buf = match s.persistedFiles.get? content with
        | none => List.replicate toRead 0
        | some f =>
          if offset < min f.content.length (offset + toRead) then
            copyAt (List.replicate toRead 0) 0 ((f.content.drop offset).take
              (min f.content.length (offset + toRead) - offset))
          else List.replicate toRead 0 := by
  refine ⟨_, ?_, (s.readBase_spec content offset toRead).1, rfl⟩
  unfold readBase
  cases s.persistedFiles.get? content with
  | none => rfl
  | some f =>
    simp only [add_of_lt hread, ok_bind]
    by_cases hin : offset < min f.content.length (offset + toRead)
    · simp only [if_pos hin, sub_of_le (Nat.le_of_lt hin), ok_bind]
      rfl
    · simp only [if_neg hin]
      rfl

/-- **`read_file` neither overflows nor underflows.** -/
theorem readFileAt_eq (h : Fits s) {content : Path} {offset toRead : Nat}
    (hread : offset + toRead < 2 ^ 64) :
    readFileAt s content offset toRead = .ok (s.readFileAt content offset toRead) := by
  obtain ⟨buf, hbase, hlen, rfl⟩ := readBase_eq hread
  unfold readFileAt
  rw [hbase, ok_bind]
  show _ = Except.ok (List.foldl _ _ s.pending)
  refine (foldlM_eq_ok (I := fun buf : List UInt8 => buf.length = toRead) hlen ?_).1
  intro buf op hmem hlen
  have hop := h.pending op hmem
  cases op with
  | write p writeOff data time =>
    by_cases ha : s.addressesContent p content
    · subst hlen
      simp only [readStep, if_pos ha]
      exact ⟨overlayWrite_eq hread hop.1, length_overlayWrite _ _ _ _⟩
    · simp only [readStep, if_neg ha]
      exact ⟨rfl, hlen⟩
  | _ => exact ⟨rfl, hlen⟩

theorem readFile_eq (h : Fits s) (path : Path) (bufLen offset : Nat) :
    readFile s path bufLen offset = .ok (s.readFile path bufLen offset) := by
  unfold readFile FsState.readFile
  by_cases hbuf : bufLen = 0
  · rw [if_pos hbuf, if_pos hbuf]
    rfl
  · rw [if_neg hbuf, if_neg hbuf, fileLen_eq h, ok_bind]
    cases hlen : s.fileLen path with
    | none => rfl
    | some len =>
      have hlt := fileLen_lt h hlen
      by_cases hoff : offset ≥ len
      · simp only [if_pos hoff]
        rfl
      · simp only [if_neg hoff, sub_of_le (Nat.le_of_lt (Nat.lt_of_not_le hoff)), ok_bind]
        cases s.resolveContentPath path with
        | none => rfl
        | some content =>
          have hread : offset + min bufLen (len - offset) < 2 ^ 64 := by omega
          simp only [readFileAt_eq h hread, ok_bind]
          rfl

/-! ## 4. Operations made durable -/

section Stored

variable {files : IndexMap Path FileData} {k : Path}

theorem WordSized.insert (h : WordSized files) {d : FileData} (hd : d.content.length < 2 ^ 64) :
    WordSized (files.insert k d) := by
  intro p f hget
  rw [IndexMap.get?_insert] at hget
  split at hget
  · cases hget
    exact hd
  · exact h p f hget

theorem WordSized.modify (h : WordSized files) {g : FileData → FileData}
    (hg : ∀ f, files.get? k = some f → (g f).content.length < 2 ^ 64) :
    WordSized (files.modify k g) := by
  intro p f hget
  rw [IndexMap.get?_modify] at hget
  split at hget
  · obtain ⟨f', hf', rfl⟩ := Option.map_eq_some_iff.mp hget
    subst_vars
    exact hg f' hf'
  · exact h p f hget

theorem WordSized.swapRemove (h : WordSized files) : WordSized (files.swapRemove k) := by
  intro p f hget
  rw [IndexMap.get?_swapRemove] at hget
  split at hget
  · cases hget
  · exact h p f hget

theorem WordSized.retainKeys (h : WordSized files) (keep : Path → Bool) :
    WordSized (files.retainKeys keep) := by
  intro p f hget
  rw [IndexMap.get?_retainKeys] at hget
  split at hget
  · exact h p f hget
  · cases hget

theorem WordSized.orInsert (h : WordSized files) {d : FileData} (hd : d.content.length < 2 ^ 64) :
    WordSized (files.orInsert k d) := by
  unfold IndexMap.orInsert
  split
  · exact h
  · exact h.insert hd

end Stored

/-- **Applying an operation keeps every stored length a word.** -/
theorem applyOp_wordSized (h : WordSized s.persistedFiles) {op : PendingOp} (hop : OpFits op) :
    WordSized (s.applyOpToPersisted op).persistedFiles := by
  cases op with
  | createFile path time mode => exact h.orInsert (Nat.two_pow_pos 64)
  | createHardLink path target time =>
    simp only [FsState.applyOpToPersisted]
    cases ht : s.persistedFiles.get? target with
    | none => exact h
    | some t =>
      -- the link gets a copy of the target's bytes
      refine (h.modify fun f hf => ?_).insert ?_
      · exact h target f hf
      · exact h target t ht
  | write path offset data time =>
    refine h.modify fun f hf => ?_
    simp only [FileData.applyWrite, length_writeAt]
    exact Nat.max_lt.mpr ⟨h path f hf, hop.1⟩
  | setLen path len time =>
    refine h.modify fun f hf => ?_
    simp only [FileData.applySetLen, length_resize]
    exact hop
  | setPermissions path mode time =>
    simp only [FsState.applyOpToPersisted]
    split
    · exact h.modify fun f hf => h path f hf
    · exact h
  | rename src dst =>
    simp only [FsState.applyOpToPersisted]
    cases hsrc : s.persistedFiles.get? src with
    | some d => exact h.swapRemove.insert (h src d hsrc)
    | none =>
      dsimp only
      split
      · exact h
      · split <;> exact h
  | removeFile path => exact h.swapRemove
  | createDir path time mode => exact h
  | createSymlink path target time => exact h
  | removeDir path => exact h

/-- **`apply_op_to_persisted` does not overflow.** -/
theorem applyOp_eq (s : FsState) {op : PendingOp} (hop : OpFits op) :
    applyOpToPersisted s op = .ok (s.applyOpToPersisted op) := by
  cases op with
  | write path offset data time =>
    simp only [applyOpToPersisted]
    cases hget : s.persistedFiles.get? path with
    | none =>
      have hself : s.persistedFiles.modify path (fun f => f.applyWrite offset data time)
          = s.persistedFiles :=
        IndexMap.modify_self fun f hf => by rw [hget] at hf; cases hf
      simp only [FsState.applyOpToPersisted, hself]
      rfl
    | some f =>
      simp only [add_of_lt hop.1, ok_bind]
      rfl
  | _ => rfl

/-- A log of them. -/
theorem foldlM_applyOp {log : List PendingOp} (hlog : ∀ op ∈ log, OpFits op) {s : FsState}
    (h : WordSized s.persistedFiles) :
    log.foldlM applyOpToPersisted s = .ok (log.foldl FsState.applyOpToPersisted s)
      ∧ WordSized (log.foldl FsState.applyOpToPersisted s).persistedFiles :=
  foldlM_eq_ok (I := fun s => WordSized s.persistedFiles) h fun s op hop hs =>
    ⟨applyOp_eq s (hlog op hop), applyOp_wordSized hs (hlog op hop)⟩

/-! ## 5. Flushes -/

theorem Fits.filter (h : Fits s) (keep : PendingOp → Bool) : ∀ op ∈ s.pending.filter keep, OpFits op :=
  fun op hop => h.pending op (List.mem_of_mem_filter hop)

/-- **A sync of a file does not overflow**, and leaves a state that fits. -/
theorem flushFile_eq (h : Fits s) (path : Path) :
    flushFile s path = .ok (s.flushFile path) ∧ Fits (s.flushFile path).1 := by
  unfold flushFile FsState.flushFile
  cases s.fileExists path with
  | false => exact ⟨rfl, h⟩
  | true =>
    simp only [Bool.not_true, Bool.false_eq_true, if_false]
    generalize hkeep : s.pending.filter (fun op => !FsState.isDataOf path op) = toKeep
    generalize hfiles : (if s.persistedFiles.contains path then s.persistedFiles
      else s.persistedFiles.insert path (FileData.withMode (FsState.pendingCreation toKeep path).1
        (FsState.pendingCreation toKeep path).2)) = files
    have hsized : WordSized files := by
      rw [← hfiles]
      split
      · exact h.stored
      · exact h.stored.insert (Nat.two_pow_pos 64)
    obtain ⟨hok, hstored⟩ := foldlM_applyOp (h.filter (FsState.isDataOf path))
      (s := { s with persistedFiles := files, pending := toKeep }) hsized
    obtain ⟨files', dirs, links, heq⟩ := FsState.foldl_applyOp_eq
      (s.pending.filter (FsState.isDataOf path))
      { s with persistedFiles := files, pending := toKeep }
    refine ⟨?_, ?_⟩
    · rw [hok, ok_bind]
      rfl
    · refine ⟨?_, hstored, ?_⟩
      · rw [heq]
        rw [← hkeep]
        exact h.filter _
      · rw [heq]
        exact h.block

/-- One round of the flush loop of `sync_dir`. -/
theorem flushDirOp_eq (path : Path) (s : FsState) {op : PendingOp} (hop : OpFits op) :
    flushDirOp path s op = .ok (FsState.flushDirOp path s op) := applyOp_eq _ hop

theorem flushDirOp_wordSized (h : WordSized s.persistedFiles) (path : Path) {op : PendingOp}
    (hop : OpFits op) : WordSized (FsState.flushDirOp path s op).persistedFiles :=
  applyOp_wordSized (s := { s with syncedEntries := FsState.syncEntry path s.syncedEntries op }) h hop

/-- **A sync of a directory does not overflow.** -/
theorem syncDir_eq (h : Fits s) (path : Path) (time : Duration) :
    syncDir s path time = .ok (s.syncDir path time) := by
  unfold syncDir FsState.syncDir
  cases s.dirExists path with
  | false => rfl
  | true =>
    simp only [Bool.not_true, Bool.false_eq_true, if_false]
    have hfold := foldlM_eq_ok (f := flushDirOp path) (g := FsState.flushDirOp path)
      (l := s.pending.filter (FsState.affectsDir path))
      (b := { s with pending := s.pending.filter (fun op => !FsState.affectsDir path op) })
      (I := fun s => WordSized s.persistedFiles) h.stored fun s op hop hs =>
        have hop := h.filter _ op hop
        ⟨flushDirOp_eq path s hop, flushDirOp_wordSized hs path hop⟩
    rw [hfold.1, ok_bind]
    rfl

theorem Fits.syncDir (h : Fits s) (path : Path) (time : Duration) :
    Fits (s.syncDir path time).1 := by
  cases hex : s.dirExists path with
  | false =>
    rw [FsState.syncDir_err hex]
    exact h
  | true =>
    obtain ⟨dirs, heq, -⟩ := FsState.syncDir_spec hex time
    obtain ⟨files, dirs', links, hfold⟩ := FsState.foldl_applyOp_eq (s.dirFlush path) s
    have hstored := (foldlM_applyOp (h.filter (FsState.affectsDir path)) h.stored).2
    rw [heq]
    refine ⟨h.filter _, hstored, ?_⟩
    rw [hfold]
    exact h.block

/-! ## 6. Crashes -/

/-- The blocks that survive do not reach past the next word: a write of one block is as long as the
block, and a longer one is no longer than a slice. -/
theorem blocks_mul_lt {len b n : Nat} (hlen : len < 2 ^ 63) (hb : b < 2 ^ 64)
    (hn : n ≤ (len + b - 1) / b) : n * b < 2 ^ 64 := by
  have hmul : n * b ≤ (len + b - 1) / b * b := Nat.mul_le_mul_right b hn
  rcases Nat.lt_or_ge b len with hlong | hshort
  · have := Nat.div_mul_le_self (len + b - 1) b
    omega
  · rcases Nat.eq_zero_or_pos b with rfl | hpos
    · simp
    · have hone : (len + b - 1) / b ≤ 1 := by
        rw [← Nat.lt_succ_iff, Nat.div_lt_iff_lt_mul hpos]
        omega
      have : n * b ≤ 1 * b := Nat.mul_le_mul_right b (hn.trans hone)
      omega

theorem tornWrite_eq (s : FsState) {b : Nat} (hb : b < 2 ^ 64) (surviving : Nat) {op : PendingOp}
    (hop : OpFits op) : tornWrite s b surviving op = .ok (s.tornWrite b surviving op) := by
  cases op with
  | write path offset data time =>
    simp only [tornWrite, FsState.tornWrite]
    generalize htotal : (data.length + b - 1) / b = total
    split
    · rfl
    · rename_i hlive
      have hmul : min surviving total * b < 2 ^ 64 :=
        blocks_mul_lt hop.2 hb (htotal ▸ Nat.min_le_right _ _)
      rw [mul_of_lt hmul, ok_bind]
      rfl
  | _ => rfl

theorem tornWrites_eq (s : FsState) {b : Nat} (hb : b < 2 ^ 64) (surviving : Nat → Nat) :
    ∀ {l : List (PendingOp × Nat)}, (∀ x ∈ l, OpFits x.1) →
      tornWrites s b surviving l
        = .ok (l.filterMap fun x => s.tornWrite b (surviving x.2) x.1)
  | [], _ => rfl
  | (op, i) :: rest, hl => by
    rw [tornWrites, tornWrite_eq s hb _ (hl _ List.mem_cons_self), ok_bind,
      tornWrites_eq s hb surviving fun x hx => hl x (List.mem_cons_of_mem _ hx), ok_bind,
      List.filterMap_cons]
    cases s.tornWrite b (surviving i) op <;> rfl

theorem tornWrites_fit (h : Fits s) (b : Nat) (surviving : Nat → Nat) :
    ∀ op ∈ (s.pending.zipIdx).filterMap fun x => s.tornWrite b (surviving x.2) x.1, OpFits op := by
  intro o ho
  obtain ⟨⟨op, i⟩, hmem, hsome⟩ := List.mem_filterMap.mp ho
  obtain ⟨p, offset, data, time, n, rfl, rfl⟩ := FsState.tornWrite_eq_some hsome
  obtain ⟨hend, hlen⟩ := h.pending _ (List.fst_mem_of_mem_zipIdx hmem)
  have htake : (data.take n).length ≤ data.length := List.length_take_le' _ _
  exact ⟨by omega, by omega⟩

/-- **`apply_torn_writes` does not overflow.** -/
theorem applyTornWrites_eq (h : Fits s) {b : Nat} (hb : b < 2 ^ 64) (surviving : Nat → Nat) :
    applyTornWrites s b surviving = .ok (s.applyTornWrites b surviving)
      ∧ WordSized (s.applyTornWrites b surviving).persistedFiles := by
  have htorn := foldlM_applyOp (tornWrites_fit h b surviving) h.stored
  refine ⟨?_, htorn.2⟩
  have hpending : ∀ x ∈ s.pending.zipIdx, OpFits x.1 := fun x hx =>
    h.pending _ (List.fst_mem_of_mem_zipIdx hx)
  rw [applyTornWrites, tornWrites_eq s hb surviving hpending, ok_bind]
  exact htorn.1

/-- **A crash does not overflow**, and what is left fits. -/
theorem crash_eq (h : Fits s) (surviving : Nat → Nat) :
    crash s surviving = .ok (s.crash surviving) ∧ Fits (s.crash surviving) := by
  have hblock : ∀ b, (s.crash surviving).blockSize = some b → b < 2 ^ 64 := by
    rw [show (s.crash surviving).blockSize = s.blockSize from
      FsState.apply_blockSize s (.crash surviving)]
    exact h.block
  unfold FsState.crash at hblock ⊢
  unfold crash
  cases hb : s.blockSize with
  | none =>
    rw [hb] at hblock
    exact ⟨rfl, nofun, h.stored.retainKeys _, hblock⟩
  | some b =>
    rw [hb] at hblock
    obtain ⟨hok, hstored⟩ := applyTornWrites_eq h (h.block b hb) surviving
    refine ⟨?_, nofun, hstored.retainKeys _, hblock⟩
    simp only [hok, ok_bind]
    rfl

/-! ## 7. Counting -/

/-- What `used_bytes` adds for an operation is its overhang. -/
theorem usedStep_eq {op : PendingOp} (hop : OpFits op) {total : Nat} (ht : total < 2 ^ 64) :
    usedStep s total op = add 64 total (s.overhang op) := by
  have hzero : add 64 total 0 = .ok total := add_of_lt ht
  cases op with
  | write path offset data time =>
    simp only [usedStep, add_of_lt hop.1, ok_bind, FsState.overhang, persistedLen,
      FsState.storedLen_eq]
    split
    · rename_i hlong
      rw [sub_of_le (Nat.le_of_lt hlong), ok_bind]
    · rename_i hshort
      rw [Nat.sub_eq_zero_of_le (Nat.le_of_not_lt hshort), hzero]
      rfl
  | setLen path len time =>
    simp only [usedStep, FsState.overhang, persistedLen, FsState.storedLen_eq]
    split
    · rename_i hlong
      rw [sub_of_le (Nat.le_of_lt hlong), ok_bind]
    · rename_i hshort
      rw [Nat.sub_eq_zero_of_le (Nat.le_of_not_lt hshort), hzero]
      rfl
  | _ => exact hzero.symm

theorem foldlM_usedStep : ∀ {log : List PendingOp}, (∀ op ∈ log, OpFits op) → ∀ {total : Nat},
    total < 2 ^ 64 →
      log.foldlM (usedStep s) total = (log.map s.overhang).foldlM (add 64) total
  | [], _, _, _ => rfl
  | op :: log, hlog, total, ht => by
    rw [List.foldlM_cons, List.map_cons, List.foldlM_cons, usedStep_eq (hlog op List.mem_cons_self) ht]
    by_cases hsum : total + s.overhang op < 2 ^ 64
    · rw [add_of_lt hsum, ok_bind, ok_bind]
      exact foldlM_usedStep (fun o ho => hlog o (List.mem_cons_of_mem _ ho)) hsum
    · rw [add_of_not_lt hsum, error_bind, error_bind]

/-- The stored bytes, and how far every pending operation ends past those of its file. -/
def counted (s : FsState) : Nat :=
  (s.persistedFiles.values.map (·.content.length)).sum + (s.pending.map s.overhang).sum

/-- **`used_bytes` overflows exactly if the whole sum is no word.** -/
theorem usedBytes_eq (h : Fits s) :
    usedBytes s = if counted s < 2 ^ 64 then .ok s.usedBytes else .error .add := by
  rw [FsState.usedBytes_eq, counted]
  generalize hstored : s.persistedFiles.values.map (·.content.length) = stored
  unfold usedBytes
  rw [hstored, foldlM_add (Nat.two_pow_pos 64), Nat.zero_add]
  by_cases hsum : stored.sum < 2 ^ 64
  · rw [if_pos hsum, ok_bind, foldlM_usedStep h.pending hsum, foldlM_add hsum]
  · rw [if_neg hsum, error_bind, if_neg (by omega)]

/-- A capacity check counts nothing, or a word. -/
def Countable (s : FsState) : Prop := s.capacity = none ∨ counted s < 2 ^ 64

theorem checkSpace_returns (h : Fits s) (additionalBytes : Nat) :
    Returns (Countable s) (checkSpace s additionalBytes) (s.checkSpace additionalBytes) := by
  unfold checkSpace FsState.checkSpace Countable
  cases s.capacity with
  | none => exact Or.inl ⟨Or.inl rfl, rfl⟩
  | some cap =>
    by_cases hsum : counted s < 2 ^ 64
    · refine Or.inl ⟨Or.inr hsum, ?_⟩
      simp only [usedBytes_eq h, if_pos hsum, ok_bind]
      rfl
    · refine Or.inr ⟨by simpa using hsum, .add, ?_⟩
      simp only [usedBytes_eq h, if_neg hsum, error_bind]

end Machine

end Turmoil.Fs
