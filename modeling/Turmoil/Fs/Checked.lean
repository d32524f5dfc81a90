/-
# The calls of the shim and of the ring, checked

`write_at_internal` and `exec_write` are where a file offset enters the queue: `offset + len`, what
it is longer than the file, and the capacity check for that.  Both are here with their arithmetic
checked, and so are the reads, the syncs and `set_len` through a handle or a ring entry.

The write paths are the unbounded ones exactly if the end is a word, and what `used_bytes` counts is
one wherever it is counted (`writeAt_returns`, `execWrite_returns`); what they let in then fits
(`writeAt_after`, `execWrite_after`).  The other calls are the unbounded ones in every state that
fits.
-/
import Turmoil.Fs.Machine
import Turmoil.Uring.Failure

namespace Turmoil.Fs

open Word

/-! ## 1. The write paths -/

/-- Both write paths, once they know the file: the capacity check, the queued write, and its flush if
it is flushed at once. -/
def FsState.writeThrough (s : FsState) (path : Path) (offset : Nat) (buf : List UInt8) (flush : Bool)
    (now : Duration) : Option (Except FsError FsState) :=
  match s.fileLen path with
  | none => none
  | some currentLen =>
    match (if offset + buf.length - currentLen > 0
        then s.checkSpace (offset + buf.length - currentLen) else .ok ()) with
    | .error e => some (.error e)
    | .ok () =>
      let s := s.writeFile path offset buf now
      some (.ok (if flush then (s.syncFile path).1 else s))

/-- What `write_at_internal` makes of it. -/
def shimResult (s : FsState) (len : Nat) : Option (Except FsError FsState) → ShimResult Nat
  | none => (s, .error .overflow)
  | some (.error e) => (s, .error e.other)
  | some (.ok s) => (s, .ok len)

/-- What `exec_write` makes of it. -/
def ringResult (s : FsState) (len : Nat) : Option (Except FsError FsState) → FsState × Option Int
  | none => (s, none)
  | some (.error _) => (s, some (-Uring.enospc))
  | some (.ok s) => (s, some (Uring.asI32 len))

/-- The text of the error for direct I/O that is not aligned. -/
def FsState.misaligned (s : FsState) : ShimError :=
  .io .invalidInput ("direct I/O: buffer pointer, offset, and length must be aligned to "
    ++ toString s.directIoAlignment ++ " bytes")

theorem Shim.writeAt_through (s : FsState) (f : File) (offset : Nat) (buf : List UInt8)
    (ptrAligned ioError flush : Bool) (now : Duration) :
    writeAt s f offset buf ptrAligned ioError flush now
      = if !f.writable then
          (s, .error (.io .permissionDenied "file not opened for writing"))
        else if f.directIo && (!ptrAligned || offset % s.directIoAlignment != 0
            || buf.length % s.directIoAlignment != 0) then (s, .error s.misaligned)
        else if ioError then (s, .error (.io .other "I/O error"))
        else
          match handlePath s f with
          | .error e => (s, .error e)
          | .ok path => shimResult s buf.length (s.writeThrough path offset buf flush now) := by
  unfold writeAt FsState.writeThrough FsState.misaligned
  cases handlePath s f with
  | error e => rfl
  | ok path =>
    dsimp only
    cases s.fileLen path with
    | none => rfl
    | some currentLen =>
      dsimp only
      cases (if offset + buf.length - currentLen > 0
        then s.checkSpace (offset + buf.length - currentLen) else .ok ()) <;> rfl

theorem execWrite_through (s : FsState) (fd : RawFd) (ptr : Nat) (buf : List UInt8) (offset : Nat)
    (faults : Uring.WriteFaults) (now : Duration) :
    Uring.execWrite s fd ptr buf offset faults now
      = match s.openHandles.get? fd with
        | none => (s, some (-Uring.ebadf))
        | some path =>
          if s.directIoFds.contains fd && !Uring.directIoAligned s ptr offset buf.length then
            (s, some (-Uring.einval))
          else if faults.ioError then (s, some (-Uring.eio))
          else if offset + buf.length ≥ 2 ^ 64 then (s, none)
          else ringResult s buf.length (s.writeThrough path offset buf faults.flush now) := by
  unfold Uring.execWrite FsState.writeThrough
  cases s.openHandles.get? fd with
  | none => rfl
  | some path =>
    dsimp only
    cases s.fileLen path with
    | none => simp [ringResult]
    | some currentLen =>
      dsimp only
      by_cases hgrow : offset + buf.length - currentLen > 0
      · simp only [hgrow, if_true, decide_true, Bool.true_and]
        cases s.checkSpace (offset + buf.length - currentLen) <;> rfl
      · simp only [hgrow, if_false, decide_false, Bool.false_and]
        rfl

namespace Machine

variable {s : FsState}

/-- `write_end`, and the capacity check if the write makes the file longer. -/
def roomFor (s : FsState) (currentLen offset len : Nat) : Checked (Except FsError Unit) := do
  let writeEnd ← add 64 offset len
  if writeEnd - currentLen > 0 then checkSpace s (writeEnd - currentLen) else pure (.ok ())

/-- The data operation just queued, flushed at once if the random generator said so. -/
def flushNow (s : FsState) (path : Path) (flush : Bool) : Checked FsState :=
  if flush then do
    let r ← flushFile s path
    pure r.1
  else pure s

def writeThrough (s : FsState) (path : Path) (offset : Nat) (buf : List UInt8) (flush : Bool)
    (now : Duration) : Checked (Option (Except FsError FsState)) := do
  match ← fileLen s path with
  | none => pure none
  | some currentLen =>
    match ← roomFor s currentLen offset buf.length with
    | .error e => pure (some (.error e))
    | .ok () =>
      let s ← flushNow (s.writeFile path offset buf now) path flush
      pure (some (.ok s))

/-- `File::write_at_internal`. -/
def writeAt (s : FsState) (f : File) (offset : Nat) (buf : List UInt8)
    (ptrAligned ioError flush : Bool) (now : Duration) : Checked (ShimResult Nat) :=
  if !f.writable then pure (s, .error (.io .permissionDenied "file not opened for writing"))
  else if f.directIo && (!ptrAligned || offset % s.directIoAlignment != 0
      || buf.length % s.directIoAlignment != 0) then
    pure (s, .error s.misaligned)
  else if ioError then pure (s, .error (.io .other "I/O error"))
  else
    match Shim.handlePath s f with
    | .error e => pure (s, .error e)
    | .ok path => do
      let written ← writeThrough s path offset buf flush now
      pure (shimResult s buf.length written)

/-- `exec_write`. -/
def execWrite (s : FsState) (fd : RawFd) (ptr : Nat) (buf : List UInt8) (offset : Nat)
    (faults : Uring.WriteFaults) (now : Duration) : Checked (FsState × Option Int) :=
  match s.openHandles.get? fd with
  | none => pure (s, some (-Uring.ebadf))
  | some path =>
    if s.directIoFds.contains fd && !Uring.directIoAligned s ptr offset buf.length then
      pure (s, some (-Uring.einval))
    else if faults.ioError then pure (s, some (-Uring.eio))
    else do
      let written ← writeThrough s path offset buf faults.flush now
      pure (ringResult s buf.length written)

/-! ### The conditions -/

/-- The end of a write is a word; and if the write makes the file longer, what `used_bytes` counts
is one. -/
def WriteFine (s : FsState) (path : Path) (offset len : Nat) : Prop :=
  ∀ currentLen, s.fileLen path = some currentLen →
    offset + len < 2 ^ 64 ∧ (0 < offset + len - currentLen → Countable s)

theorem Fits.push (h : Fits s) {op : PendingOp} (hop : OpFits op) : Fits (s.push op) := by
  refine ⟨fun o ho => ?_, h.stored, h.block⟩
  rcases List.mem_append.mp ho with ho | ho
  · exact h.pending o ho
  · rw [List.mem_singleton.mp ho]
    exact hop

theorem Fits.writeFile (h : Fits s) {offset : Nat} {buf : List UInt8}
    (hend : offset + buf.length < 2 ^ 64) (hbuf : buf.length < 2 ^ 63) (path : Path)
    (now : Duration) : Fits (s.writeFile path offset buf now) := by
  unfold FsState.writeFile
  split
  · exact h
  · exact h.push ⟨hend, hbuf⟩

theorem flushNow_eq (h : Fits s) (path : Path) (flush : Bool) :
    flushNow s path flush = .ok (if flush then (s.syncFile path).1 else s)
      ∧ Fits (if flush then (s.syncFile path).1 else s) := by
  unfold flushNow
  cases flush with
  | false => exact ⟨rfl, h⟩
  | true =>
    obtain ⟨hok, hfits⟩ := flushFile_eq h path
    simp only [if_true, hok, ok_bind]
    exact ⟨rfl, hfits⟩

theorem roomFor_returns (h : Fits s) (currentLen offset len : Nat) :
    Returns (offset + len < 2 ^ 64 ∧ (0 < offset + len - currentLen → Countable s))
      (roomFor s currentLen offset len)
      (if offset + len - currentLen > 0 then s.checkSpace (offset + len - currentLen)
        else .ok ()) := by
  refine returns_add.bind fun _ => ?_
  split
  · rename_i hgrow
    exact (checkSpace_returns h _).congr (by simp [hgrow])
  · rename_i hshort
    exact (Returns.of_ok rfl).congr (by simp [hshort])

/-- **A write path is exact as far as its condition goes**, and what it lets in fits. -/
theorem writeThrough_returns (h : Fits s) (path : Path) (offset : Nat) {buf : List UInt8}
    (hbuf : buf.length < 2 ^ 63) (flush : Bool) (now : Duration) :
    Returns (WriteFine s path offset buf.length) (writeThrough s path offset buf flush now)
      (s.writeThrough path offset buf flush now) := by
  unfold writeThrough FsState.writeThrough WriteFine
  rw [fileLen_eq h, ok_bind]
  cases s.fileLen path with
  | none => exact (Returns.of_ok rfl).congr (by simp)
  | some currentLen =>
    dsimp only
    refine Returns.congr ((roomFor_returns h currentLen offset buf.length).bind
      (q := True) fun hfine => ?_) (by simp)
    split
    · exact Returns.of_ok rfl
    · have hqueued := h.writeFile hfine.1 hbuf path now
      rw [(flushNow_eq hqueued path flush).1, ok_bind]
      exact Returns.of_ok rfl

/-- What comes of a write path: the file is not found, or the write ends within a word and is refused
or queued. -/
theorem writeThrough_cases (h : Fits s) {path : Path} {offset : Nat} {buf : List UInt8}
    (hbuf : buf.length < 2 ^ 63) (flush : Bool) (now : Duration)
    (hfine : WriteFine s path offset buf.length) :
    (s.fileLen path = none ∧ s.writeThrough path offset buf flush now = none)
      ∨ offset + buf.length < 2 ^ 64
        ∧ ((∃ e, s.writeThrough path offset buf flush now = some (.error e))
          ∨ ∃ t, s.writeThrough path offset buf flush now = some (.ok t) ∧ Fits t) := by
  unfold FsState.writeThrough
  cases hlen : s.fileLen path with
  | none => exact Or.inl ⟨rfl, rfl⟩
  | some currentLen =>
    obtain ⟨hend, -⟩ := hfine currentLen hlen
    refine Or.inr ⟨hend, ?_⟩
    dsimp only
    split
    · exact Or.inl ⟨_, rfl⟩
    · exact Or.inr ⟨_, rfl, (flushNow_eq (h.writeFile hend hbuf path now) path flush).2⟩

/-! ### The two write paths -/

/-- When a write through a handle reaches the arithmetic, its numbers are in range. -/
def WriteAtFine (s : FsState) (f : File) (offset : Nat) (buf : List UInt8)
    (ptrAligned ioError : Bool) : Prop :=
  f.writable = true → Shim.Aligned s f offset buf ptrAligned → ioError = false →
    ∀ path, Shim.handlePath s f = .ok path → WriteFine s path offset buf.length

theorem aligned_iff {f : File} {offset : Nat} {buf : List UInt8} {ptrAligned : Bool} :
    Shim.Aligned s f offset buf ptrAligned
      ↔ ¬ (f.directIo && (!ptrAligned || offset % s.directIoAlignment != 0
        || buf.length % s.directIoAlignment != 0)) = true := by
  unfold Shim.Aligned
  cases f.directIo <;> cases ptrAligned <;> simp

/-- **A write through a handle, checked, is the exact one**, under its condition and only then. -/
theorem writeAt_returns (h : Fits s) (f : File) (offset : Nat) {buf : List UInt8}
    (hbuf : buf.length < 2 ^ 63) (ptrAligned ioError flush : Bool) (now : Duration) :
    Returns (WriteAtFine s f offset buf ptrAligned ioError)
      (writeAt s f offset buf ptrAligned ioError flush now)
      (Shim.writeAt s f offset buf ptrAligned ioError flush now) := by
  rw [Shim.writeAt_through, writeAt]
  refine Returns.congr (.guard fun _ => .guard fun _ => .guard fun _ =>
    (?_ : Returns (∀ path, Shim.handlePath s f = .ok path → WriteFine s path offset buf.length)
      _ _)) ?_
  · cases Shim.handlePath s f with
    | error e => exact (Returns.of_ok rfl).congr (by simp)
    | ok path =>
      exact ((writeThrough_returns h path offset hbuf flush now).map _).congr (by simp)
  · rw [WriteAtFine, aligned_iff]
    simp

/-- A write through a handle that comes as far as the write path. -/
theorem writeAt_reaches {f : File} {offset : Nat} {buf : List UInt8} {ptrAligned ioError : Bool}
    (hfine : WriteAtFine s f offset buf ptrAligned ioError) (flush : Bool) (now : Duration) :
    (∃ kind message, Shim.writeAt s f offset buf ptrAligned ioError flush now
        = (s, .error (.io kind message)))
      ∨ ∃ path, s.openHandles.get? f.fd = some path ∧ WriteFine s path offset buf.length
        ∧ Shim.writeAt s f offset buf ptrAligned ioError flush now
          = shimResult s buf.length (s.writeThrough path offset buf flush now) := by
  rw [Shim.writeAt_through]
  split
  · exact Or.inl ⟨_, _, rfl⟩
  rename_i hw
  split
  · exact Or.inl ⟨_, _, rfl⟩
  rename_i hal
  split
  · exact Or.inl ⟨_, _, rfl⟩
  rename_i hio
  have hfine := hfine (by simpa using hw) (aligned_iff.mpr hal) (by simpa using hio)
  unfold Shim.handlePath at hfine ⊢
  cases hp : s.openHandles.get? f.fd with
  | none => exact Or.inl ⟨_, _, rfl⟩
  | some path => exact Or.inr ⟨path, rfl, hfine path (by rw [hp]), rfl⟩

/-- **What a fine write through a handle leaves behind**: a state that fits, and a cursor that does;
and if its end does not fit, nothing but an error. -/
theorem writeAt_after (h : Fits s) {f : File} {offset : Nat} {buf : List UInt8}
    (hbuf : buf.length < 2 ^ 63) {ptrAligned ioError : Bool} (flush : Bool) (now : Duration)
    (hfine : WriteAtFine s f offset buf ptrAligned ioError) {t : FsState}
    {r : Except ShimError Nat}
    (hr : Shim.writeAt s f offset buf ptrAligned ioError flush now = (t, r)) :
    Fits t ∧ (∀ n, r = .ok n → offset + n < 2 ^ 64)
      ∧ (¬ offset + buf.length < 2 ^ 64 → (s.openHandles.get? f.fd).map s.fileLen ≠ some none →
        t = s ∧ ∃ kind message, r = .error (.io kind message)) := by
  rcases writeAt_reaches hfine flush now with ⟨kind, message, heq⟩ | ⟨path, hp, hwrite, heq⟩
  · obtain ⟨rfl, rfl⟩ := Prod.mk.inj (heq.symm.trans hr)
    exact ⟨h, nofun, fun _ _ => ⟨rfl, kind, message, rfl⟩⟩
  · rw [heq] at hr
    rcases writeThrough_cases h hbuf flush now hwrite with
      ⟨hlen, hnone⟩ | ⟨hend, ⟨e, herr⟩ | ⟨t', hok, hfits⟩⟩
    · rw [hnone] at hr
      obtain ⟨rfl, rfl⟩ := Prod.mk.inj hr
      exact ⟨h, nofun, fun _ hfound => absurd (by rw [hp, Option.map_some, hlen]) hfound⟩
    · rw [herr] at hr
      obtain ⟨rfl, rfl⟩ := Prod.mk.inj hr
      exact ⟨h, nofun, fun hnot => absurd hend hnot⟩
    · rw [hok] at hr
      obtain ⟨rfl, rfl⟩ := Prod.mk.inj hr
      refine ⟨hfits, fun n hn => ?_, fun hnot => absurd hend hnot⟩
      obtain rfl := Except.ok.inj hn
      exact hend

/-- When a write of the ring reaches the arithmetic, its numbers are in range. -/
def ExecWriteFine (s : FsState) (fd : RawFd) (ptr : Nat) (buf : List UInt8) (offset : Nat)
    (faults : Uring.WriteFaults) : Prop :=
  ∀ path, s.openHandles.get? fd = some path →
    ¬ (s.directIoFds.contains fd && !Uring.directIoAligned s ptr offset buf.length) = true →
    ¬ faults.ioError = true → WriteFine s path offset buf.length

theorem execWrite_returns (h : Fits s) (fd : RawFd) (ptr : Nat) {buf : List UInt8}
    (hbuf : buf.length < 2 ^ 63) (offset : Nat) (faults : Uring.WriteFaults) (now : Duration) :
    Returns (ExecWriteFine s fd ptr buf offset faults)
      (execWrite s fd ptr buf offset faults now)
      (Uring.execWrite s fd ptr buf offset faults now) := by
  rw [execWrite_through, execWrite, ExecWriteFine]
  cases s.openHandles.get? fd with
  | none => exact (Returns.of_ok rfl).congr (by simp)
  | some path =>
    refine Returns.congr (.guard fun _ => .guard fun _ =>
      (?_ : Returns (WriteFine s path offset buf.length) _ _)) (by simp)
    have hthrough := (writeThrough_returns h path offset hbuf faults.flush now).map
      (ringResult s buf.length)
    by_cases hend : offset + buf.length ≥ 2 ^ 64
    · rw [if_pos hend]
      refine hthrough.imp (fun h => ⟨h.1, h.2.trans ?_⟩) id
      -- the end is no word, so the process had run out of stack before it was computed
      have hlen : s.fileLen path = none := by
        cases hlen : s.fileLen path with
        | none => rfl
        | some currentLen =>
          have := (h.1 currentLen hlen).1
          omega
      simp only [FsState.writeThrough, hlen]
      rfl
    · rwa [if_neg hend]

/-- What a fine write of the ring leaves behind. -/
theorem execWrite_after (h : Fits s) {fd : RawFd} {ptr : Nat} {buf : List UInt8}
    (hbuf : buf.length < 2 ^ 63) {offset : Nat} {faults : Uring.WriteFaults} (now : Duration)
    (hfine : ExecWriteFine s fd ptr buf offset faults) {t : FsState} {r : Option Int}
    (hr : Uring.execWrite s fd ptr buf offset faults now = (t, r)) :
    Fits t ∧ (¬ offset + buf.length < 2 ^ 64 → (s.openHandles.get? fd).map s.fileLen ≠ some none →
      t = s ∧ ∃ errno, r = some errno ∧ errno < 0) := by
  have hrefused : ∀ {errno : Int}, errno < 0 → (s, some errno) = (t, r) →
      Fits t ∧ (¬ offset + buf.length < 2 ^ 64 →
        (s.openHandles.get? fd).map s.fileLen ≠ some none →
        t = s ∧ ∃ errno, r = some errno ∧ errno < 0) := by
    rintro errno hneg heq
    obtain ⟨rfl, rfl⟩ := Prod.mk.inj heq
    exact ⟨h, fun _ _ => ⟨rfl, errno, rfl, hneg⟩⟩
  rw [execWrite_through] at hr
  cases hp : s.openHandles.get? fd with
  | none =>
    rw [hp] at hr
    exact hp ▸ hrefused (by decide) hr
  | some path =>
    rw [hp] at hr
    dsimp only at hr
    split at hr
    · exact hp ▸ hrefused (by decide) hr
    rename_i hal
    split at hr
    · exact hp ▸ hrefused (by decide) hr
    rename_i hio
    rcases writeThrough_cases h hbuf faults.flush now (hfine path hp hal hio) with
      ⟨hlen, hnone⟩ | ⟨hend, hres⟩
    · rw [hnone] at hr
      have hr : (s, (none : Option Int)) = (t, r) := by
        split at hr
        · exact hr
        · exact hr
      obtain ⟨rfl, rfl⟩ := Prod.mk.inj hr
      exact ⟨h, fun _ hfound => absurd (by rw [Option.map_some, hlen]) hfound⟩
    · rw [if_neg (Nat.not_le.mpr hend)] at hr
      rcases hres with ⟨e, herr⟩ | ⟨t', hok, hfits⟩
      · rw [herr] at hr
        exact hp ▸ hrefused (by decide) hr
      · rw [hok] at hr
        obtain ⟨rfl, rfl⟩ := Prod.mk.inj hr
        exact ⟨hfits, fun hnot => absurd hend hnot⟩

/-! ## 2. Reads, syncs and truncations -/

/-- A read told to corrupt a byte reports where in the file the byte is. -/
def reportCorruption (offset : Nat) (faults : Shim.ReadFaults) (n : Nat) : Checked Unit :=
  match faults.corrupt with
  | some (draw, _) =>
    if n > 0 then do
      let _ ← add 64 offset (Shim.drawIn 0 n draw)
      pure ()
    else pure ()
  | none => pure ()

/-- `File::read_at_internal`. -/
def readAt (s : FsState) (f : File) (ptr : Nat) (buf : List UInt8) (offset : Nat)
    (faults : Shim.ReadFaults) : Checked (FsState × List UInt8 × Except ShimError Nat) :=
  if !f.readable then
    pure (s, buf, .error (.io .permissionDenied "file not opened for reading"))
  else if f.directIo && (ptr % s.directIoAlignment != 0 || offset % s.directIoAlignment != 0
      || buf.length % s.directIoAlignment != 0) then
    pure (s, buf, .error s.misaligned)
  else if faults.ioError then pure (s, buf, .error (.io .other "I/O error"))
  else
    match Shim.handlePath s f with
    | .error e => pure (s, buf, .error e)
    | .ok path => do
      match ← readFile s path buf.length offset with
      | none => pure (s, buf, .error .overflow)
      | some filled =>
        let r := Uring.faulted faults buf filled
        let _ ← reportCorruption offset faults r.2
        pure (s, r.1, .ok r.2)

/-- `exec_read`. -/
def execRead (s : FsState) (fd : RawFd) (ptr : Nat) (buf : List UInt8) (offset : Nat)
    (faults : Shim.ReadFaults) : Checked (FsState × List UInt8 × Option Int) :=
  match s.openHandles.get? fd with
  | none => pure (s, buf, some (-Uring.ebadf))
  | some path =>
    if s.directIoFds.contains fd && !Uring.directIoAligned s ptr offset buf.length then
      pure (s, buf, some (-Uring.einval))
    else if faults.ioError then pure (s, buf, some (-Uring.eio))
    else do
      match ← readFile s path buf.length offset with
      | none => pure (s, buf, none)
      | some filled =>
        let r := Uring.faulted faults buf filled
        pure (s, r.1, some (Uring.asI32 r.2))

/-- `exec_fsync`. -/
def execFsync (s : FsState) (fd : RawFd) (ioError : Bool) : Checked (FsState × Int) :=
  match s.openHandles.get? fd with
  | none => pure (s, -Uring.ebadf)
  | some path =>
    if ioError then pure (s, -Uring.eio)
    else do
      match ← flushFile s path with
      | (s, .ok ()) => pure (s, 0)
      | (s, .error _) => pure (s, -Uring.eio)

/-- `File::set_len`. -/
def setLen (s : FsState) (f : File) (size : Nat) (flush : Bool) (now : Duration) :
    Checked (ShimResult Unit) :=
  if !f.writable then pure (s, .error (.io .permissionDenied "file not opened for writing"))
  else
    match Shim.handlePath s f with
    | .error e => pure (s, .error e)
    | .ok path => do
      let s ← flushNow (s.setFileLen path size now) path flush
      pure (s, .ok ())

/-- `File::sync_all` and `File::sync_data`. -/
def syncHandle (s : FsState) (f : File) : Checked (ShimResult Unit) :=
  match Shim.handlePath s f with
  | .error e => pure (s, .error e)
  | .ok path => do
    let r ← flushFile s path
    pure (r.mapErr FsError.other)

def syncAll (s : FsState) (f : File) : Checked (ShimResult Unit) := syncHandle s f

def syncData (s : FsState) (f : File) : Checked (ShimResult Unit) := syncHandle s f

/-! ### Reads -/

/-- What a read fills ends within a word. -/
theorem readFile_end (h : Fits s) {path : Path} {bufLen offset : Nat} {filled : List UInt8}
    (hread : s.readFile path bufLen offset = some filled) :
    filled = [] ∨ offset + filled.length < 2 ^ 64 := by
  unfold FsState.readFile at hread
  split at hread
  · exact Or.inl (Option.some.inj hread).symm
  cases hlen : s.fileLen path with
  | none => simp [hlen] at hread
  | some len =>
    have hlt := fileLen_lt h hlen
    rw [hlen] at hread
    dsimp only at hread
    split at hread
    · exact Or.inl (Option.some.inj hread).symm
    · cases hcontent : s.resolveContentPath path with
      | none => simp [hcontent] at hread
      | some content =>
        rw [hcontent] at hread
        obtain rfl := Option.some.inj hread
        rw [(s.readFileAt_spec content offset _).1]
        exact Or.inr (by omega)

theorem reportCorruption_eq (h : Fits s) {path : Path} {buf filled : List UInt8} {offset : Nat}
    (hread : s.readFile path buf.length offset = some filled) (faults : Shim.ReadFaults) :
    reportCorruption offset faults (Uring.faulted faults buf filled).2 = .ok () := by
  have hle := Uring.faulted_le faults buf filled
  unfold reportCorruption
  cases faults.corrupt with
  | none => rfl
  | some corrupt =>
    dsimp only
    split
    · rename_i hpos
      have hdraw : offset + Shim.drawIn 0 (Uring.faulted faults buf filled).2 corrupt.1 < 2 ^ 64 := by
        rcases readFile_end h hread with rfl | hend
        · exact absurd (Nat.lt_of_lt_of_le hpos hle) (Nat.lt_irrefl 0)
        · have := Nat.mod_lt corrupt.1 hpos
          simp only [Shim.drawIn, Nat.sub_zero]
          omega
      rw [add_of_lt hdraw, ok_bind]
      rfl
    · rfl

/-- **A read through a handle does not overflow.** -/
theorem readAt_eq (h : Fits s) (f : File) (ptr : Nat) (buf : List UInt8) (offset : Nat)
    (faults : Shim.ReadFaults) :
    readAt s f ptr buf offset faults = .ok (Shim.readAt s f ptr buf offset faults) := by
  unfold readAt Shim.readAt
  split
  · rfl
  split
  · rfl
  split
  · rfl
  cases Shim.handlePath s f with
  | error e => rfl
  | ok path =>
    simp only [readFile_eq h, ok_bind]
    cases hread : s.readFile path buf.length offset with
    | none => rfl
    | some filled =>
      simp only [reportCorruption_eq h hread, ok_bind]
      rfl

theorem execRead_eq (h : Fits s) (fd : RawFd) (ptr : Nat) (buf : List UInt8) (offset : Nat)
    (faults : Shim.ReadFaults) :
    execRead s fd ptr buf offset faults = .ok (Uring.execRead s fd ptr buf offset faults) := by
  unfold execRead Uring.execRead
  cases s.openHandles.get? fd with
  | none => rfl
  | some path =>
    dsimp only
    split
    · rfl
    split
    · rfl
    rw [readFile_eq h, ok_bind]
    cases s.readFile path buf.length offset <;> rfl

/-- A read through a handle ends within a word. -/
theorem readAt_end (h : Fits s) {f : File} {ptr : Nat} {buf : List UInt8} {offset : Nat}
    {faults : Shim.ReadFaults} (hoff : offset < 2 ^ 64) {t : FsState} {buf' : List UInt8} {n : Nat}
    (hread : Shim.readAt s f ptr buf offset faults = (t, buf', .ok n)) :
    t = s ∧ offset + n < 2 ^ 64 := by
  unfold Shim.readAt at hread
  split at hread
  · cases hread
  split at hread
  · cases hread
  split at hread
  · cases hread
  cases hp : Shim.handlePath s f with
  | error e => simp [hp] at hread
  | ok path =>
    simp only [hp] at hread
    cases hfill : s.readFile path buf.length offset with
    | none => simp [hfill] at hread
    | some filled =>
      rw [hfill] at hread
      have hres : (s, (Uring.faulted faults buf filled).1, Except.ok (ε := ShimError)
          (Uring.faulted faults buf filled).2) = (t, buf', .ok n) := hread
      obtain ⟨rfl, -, hn⟩ : s = t ∧ _ ∧ (Uring.faulted faults buf filled).2 = n := by
        simpa using hres
      have hle := Uring.faulted_le faults buf filled
      refine ⟨rfl, ?_⟩
      rcases readFile_end h hfill with rfl | hend
      · rw [List.length_nil] at hle
        omega
      · omega

/-! ### Syncs and truncations -/

theorem execFsync_eq (h : Fits s) (fd : RawFd) (ioError : Bool) :
    execFsync s fd ioError = .ok (Uring.execFsync s fd ioError)
      ∧ Fits (Uring.execFsync s fd ioError).1 := by
  unfold execFsync Uring.execFsync
  cases s.openHandles.get? fd with
  | none => exact ⟨rfl, h⟩
  | some path =>
    cases ioError with
    | true => exact ⟨rfl, h⟩
    | false =>
      obtain ⟨hok, hfits⟩ := flushFile_eq h path
      simp only [FsState.syncFile, hok, ok_bind, Bool.false_eq_true, if_false]
      cases hr : s.flushFile path with
      | mk t r =>
        rw [hr] at hfits
        cases r <;> exact ⟨rfl, hfits⟩

theorem syncHandle_eq (h : Fits s) (f : File) :
    syncHandle s f = .ok (Shim.syncAll s f) ∧ Fits (Shim.syncAll s f).1 := by
  unfold syncHandle Shim.syncAll
  cases Shim.handlePath s f with
  | error e => exact ⟨rfl, h⟩
  | ok path =>
    obtain ⟨hok, hfits⟩ := flushFile_eq h path
    simp only [hok, ok_bind, FsResult.mapErr_fst]
    exact ⟨rfl, hfits⟩

theorem setLen_eq (h : Fits s) (f : File) {size : Nat} (hsize : size < 2 ^ 64) (flush : Bool)
    (now : Duration) :
    setLen s f size flush now = .ok (Shim.setLen s f size flush now)
      ∧ Fits (Shim.setLen s f size flush now).1 := by
  unfold setLen Shim.setLen
  split
  · exact ⟨rfl, h⟩
  · cases Shim.handlePath s f with
    | error e => exact ⟨rfl, h⟩
    | ok path =>
      have hqueued : Fits (s.setFileLen path size now) :=
        Fits.push (s := s.invalidateCache path) ⟨h.pending, h.stored, h.block⟩ hsize
      obtain ⟨hok, hfits⟩ := flushNow_eq hqueued path flush
      simp only [hok, ok_bind]
      exact ⟨rfl, hfits⟩

/-! ## 3. Calls without offsets -/

theorem Fits.of_same (h : Fits s) {t : FsState} (hpending : t.pending = s.pending)
    (hfiles : t.persistedFiles = s.persistedFiles) (hblock : t.blockSize = s.blockSize) : Fits t :=
  ⟨hpending ▸ h.pending, hfiles ▸ h.stored, hblock ▸ h.block⟩

/-- A call that queues an operation that fits. -/
theorem Fits.queued (h : Fits s) (op : FsOp) {o : PendingOp} (ho : FsState.queued op = some o)
    (hfit : OpFits o) : Fits (s.apply op).1 := by
  rcases s.apply_queued ho with ⟨heq, -⟩ | ⟨⟨cache, heq⟩, -⟩
  · rw [heq]
    exact h
  · rw [heq]
    exact (h.push hfit).of_same rfl rfl rfl

theorem Fits.finishOpen (h : Fits s) (o : OpenOptions) (resolved : Path) (now : Duration) :
    Fits (Shim.finishOpen s o resolved now).1 := by
  have hlen : Fits (if o.truncate && o.write then s.setFileLen resolved 0 now else s) := by
    split
    · exact h.queued (.setFileLen resolved 0 now) rfl (Nat.two_pow_pos 64)
    · exact h
  simp only [Shim.finishOpen, FsState.allocFd]
  split <;> exact hlen.of_same rfl rfl rfl

theorem Fits.openFile (h : Fits s) (o : OpenOptions) (path : Path) (now : Duration) :
    Fits (Shim.openFile s o path now).1 := by
  unfold Shim.openFile
  split
  · exact h
  rename_i resolved _
  split
  · exact h
  split
  · split
    · split
      · exact h
      · exact (h.queued (.createFile resolved now o.mode) rfl trivial).finishOpen o resolved now
    · exact h
  · exact h.finishOpen o resolved now

/-- The calls that compute with no offset. -/
def Plain : DiskOp → Prop
  | .call (.writeAt ..) => False
  | .call (.syncAll _) => False
  | .call (.syncDir _ _) => False
  | .call (.crash _) => False
  | .setLen .. => False
  | .syncData _ => False
  | _ => True

/-- **A call that computes with no offset keeps what fits.** -/
theorem Fits.disk (h : Fits s) (op : DiskOp) (hop : Plain op) : Fits (s.disk op) := by
  cases op with
  | call op =>
    cases op with
    | createDir path now =>
      simp only [FsState.disk, FsState.shim, Shim.createDir, FsResult.mapErr_fst]
      exact h.queued (.mkdir path now 0o755) rfl trivial
    | createDirAll path now =>
      exact Shim.createEach_keeps now
        (fun t dir _ ht => ht.queued (.mkdir dir now 0o755) rfl trivial) h
    | openFile options path now => exact h.openFile options path now
    | rename src dst =>
      simp only [FsState.disk, FsState.shim, Shim.rename, FsResult.mapErr_fst]
      exact h.queued (.rename src dst) rfl trivial
    | removeFile path =>
      simp only [FsState.disk, FsState.shim, Shim.removeFile, FsResult.mapErr_fst]
      exact h.queued (.unlink path) rfl trivial
    | removeDir path =>
      simp only [FsState.disk, FsState.shim, Shim.removeDir, FsResult.mapErr_fst]
      exact h.queued (.rmdir path) rfl trivial
    | removeDirAll order path =>
      exact Shim.removeDirAll_keeps (fun t p ht => ht.queued (.unlink p) rfl trivial)
        (fun t p ht => ht.queued (.rmdir p) rfl trivial) order h path
    | symlink original link now =>
      simp only [FsState.disk, FsState.shim, Shim.symlink, FsResult.mapErr_fst]
      exact h.queued (.symlink link original now) rfl trivial
    | hardLink original link now =>
      simp only [FsState.disk, FsState.shim, Shim.hardLink, FsResult.mapErr_fst]
      exact h.queued (.hardLink link original now) rfl trivial
    | _ => exact hop.elim
  | setPermissions path mode now =>
    simp only [FsState.disk, Shim.setPermissions, FsResult.mapErr_fst]
    exact h.queued (.setPermissions path mode now) rfl trivial
  | tryClone file =>
    simp only [FsState.disk, Shim.tryClone]
    split
    · exact h
    · simp only [FsState.allocFd]
      split <;> exact h.of_same rfl rfl rfl
  | dropFile file => exact h.of_same rfl rfl rfl
  | _ => exact hop.elim

end Machine

end Turmoil.Fs
