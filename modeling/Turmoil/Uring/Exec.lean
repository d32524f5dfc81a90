/-
# The file operations of the ring

A ring entry runs against `FsState` when its completion is yielded.  `exec_read` and `exec_write`
are a second, hand-written copy of `File::read_at_internal` and `File::write_at_internal`: the
same checks in another order, with an errno for an error.  This module has the ring's copy and
compares the two.

They differ in two places.  The ring has only the descriptor, so it does not know the modes the
file was opened with; and an alignment of 0 turns the ring's direct I/O check off, while the
shim's `is_multiple_of(0)` accepts nothing but 0.
-/
import Turmoil.Fs.Shim

namespace Turmoil.Uring

open Fs

/-! ## 1. Results -/

def ebadf : Int := 9
def eio : Int := 5
def ecanceled : Int := 125
def enoent : Int := 2
def enospc : Int := 28
def einval : Int := 22

/-- `n as i32`. -/
def asI32 (n : Nat) : Int := (BitVec.ofNat 32 n).toInt

theorem asI32_of_lt {n : Nat} (h : n < 2 ^ 31) : asI32 n = n := by
  rw [asI32, BitVec.toInt_eq_toNat_of_lt]
  · rw [BitVec.toNat_ofNat, Nat.mod_eq_of_lt (by omega)]
  · rw [BitVec.toNat_ofNat, Nat.mod_eq_of_lt (by omega)]
    omega

/-- What a write may be told by the random generator. -/
structure WriteFaults where
  ioError : Bool
  flush : Bool
  deriving DecidableEq, Repr

/-! ## 2. The ring's copy -/

/-- `direct_io_aligned`. -/
def directIoAligned (s : FsState) (ptr offset len : Nat) : Bool :=
  let alignment := s.directIoAlignment
  if alignment = 0 then true
  else ptr % alignment == 0 && offset % alignment == 0 && len % alignment == 0

/-- `exec_read` into the buffer `buf` at address `ptr`: the state, the buffer afterwards and the
result, which is missing when the process ran out of stack. -/
def execRead (s : FsState) (fd : RawFd) (ptr : Nat) (buf : List UInt8) (offset : Nat)
    (faults : Shim.ReadFaults) : FsState × List UInt8 × Option Int :=
  match s.openHandles.get? fd with
  | none => (s, buf, some (-ebadf))
  | some path =>
    if s.directIoFds.contains fd && !directIoAligned s ptr offset buf.length then
      (s, buf, some (-einval))
    else if faults.ioError then (s, buf, some (-eio))
    else
      match s.readFile path buf.length offset with
      | none => (s, buf, none)
      | some filled =>
        let n := filled.length
        let buf := Buffer.copyAt buf 0 filled
        let (buf, n) := match faults.short with
          | some draw =>
            if n > 1 then
              let short := Shim.drawIn 1 n draw
              (Shim.fillZero buf short n, short)
            else (buf, n)
          | none => (buf, n)
        let buf := match faults.corrupt with
          | some (draw, mask) =>
            if n > 0 then Shim.flipByte buf (Shim.drawIn 0 n draw) mask else buf
          | none => buf
        (s, buf, some (asI32 n))

/-- `exec_write`.  The result is missing when the process ended: out of stack, or by the overflow
of `offset + len`. -/
def execWrite (s : FsState) (fd : RawFd) (ptr : Nat) (buf : List UInt8) (offset : Nat)
    (faults : WriteFaults) (now : Duration) : FsState × Option Int :=
  match s.openHandles.get? fd with
  | none => (s, some (-ebadf))
  | some path =>
    if s.directIoFds.contains fd && !directIoAligned s ptr offset buf.length then
      (s, some (-einval))
    else if faults.ioError then (s, some (-eio))
    else
      match s.fileLen path with
      | none => (s, none)
      | some currentLen =>
        if offset + buf.length ≥ 2 ^ 64 then (s, none)
        else
          let additional := offset + buf.length - currentLen
          if additional > 0 && !(s.checkSpace additional).toBool then (s, some (-enospc))
          else
            let s := s.writeFile path offset buf now
            let s := if faults.flush then (s.syncFile path).1 else s
            (s, some (asI32 buf.length))

/-- `exec_fsync`. -/
def execFsync (s : FsState) (fd : RawFd) (ioError : Bool) : FsState × Int :=
  match s.openHandles.get? fd with
  | none => (s, -ebadf)
  | some path =>
    if ioError then (s, -eio)
    else
      match s.syncFile path with
      | (s, .ok ()) => (s, 0)
      | (s, .error _) => (s, -eio)

/-! ## 3. What it means to agree -/

/-- The count of a successful completion. -/
def okCount (result : Option Int) : Option Nat :=
  result.bind fun r => if 0 ≤ r then some r.toNat else none

theorem okCount_asI32 {n : Nat} (h : n < 2 ^ 31) : okCount (some (asI32 n)) = some n := by
  rw [okCount, asI32_of_lt h]
  simp

/-- The ring's outcome and the shim's, started in `s`, are the same: success on the same calls with
the same count and the same bytes in the buffer, the same state, and `s` itself after a failure. -/
structure Agree (s : FsState) (ring : FsState × List UInt8 × Option Int)
    (shim : FsState × List UInt8 × Except ShimError Nat) : Prop where
  count : okCount ring.2.2 = shim.2.2.toOption
  buffer : shim.2.2.toOption ≠ none → ring.2.1 = shim.2.1
  state : ring.1 = shim.1
  unchanged : shim.2.2.toOption = none → shim.1 = s

/-- A handle of the shim that is open: the descriptor is registered, and registered for direct I/O
exactly when the handle says so. -/
structure Open (s : FsState) (f : File) (path : Path) : Prop where
  path : s.openHandles.get? f.fd = some path
  direct : s.directIoFds.contains f.fd = f.directIo

def ReadsAgree (s : FsState) (f : File) (ptr : Nat) (buf : List UInt8) (offset : Nat)
    (faults : Shim.ReadFaults) : Prop :=
  Agree s (execRead s f.fd ptr buf offset faults) (Shim.readAt s f ptr buf offset faults)

def WritesAgree (s : FsState) (f : File) (ptr : Nat) (buf : List UInt8) (offset : Nat)
    (faults : WriteFaults) (now : Duration) : Prop :=
  let ring := execWrite s f.fd ptr buf offset faults now
  let shim := Shim.writeAt s f offset buf (ptr % s.directIoAlignment == 0) faults.ioError
    faults.flush now
  Agree s (ring.1, buf, ring.2) (shim.1, buf, shim.2)

/-- Not a multiple of the alignment: the address, the offset or the length. -/
def Misaligned (s : FsState) (ptr offset len : Nat) : Prop :=
  ptr % s.directIoAlignment ≠ 0 ∨ offset % s.directIoAlignment ≠ 0
    ∨ len % s.directIoAlignment ≠ 0

theorem directIoAligned_eq_false {s : FsState} {ptr offset len : Nat} :
    directIoAligned s ptr offset len = false
      ↔ s.directIoAlignment ≠ 0 ∧ Misaligned s ptr offset len := by
  simp only [directIoAligned, Misaligned]
  split
  · rename_i h0
    simp [h0]
  · rename_i h0
    simp only [Bool.and_eq_false_iff, beq_eq_false_iff_ne, h0, ne_eq, not_false_eq_true, true_and,
      or_assoc]

/-- The shim's test of the same. -/
theorem misaligned_iff {s : FsState} {ptr offset len : Nat} :
    (ptr % s.directIoAlignment != 0 || offset % s.directIoAlignment != 0
      || len % s.directIoAlignment != 0) = true ↔ Misaligned s ptr offset len := by
  simp only [Misaligned, Bool.or_eq_true, bne_iff_ne, or_assoc]

theorem Open.of_finishOpen {s s' : FsState} {o : OpenOptions} {resolved : Path} {now : Duration}
    {f : File} (hfresh : s.directIoFds.contains s.nextFd = false)
    (h : Shim.finishOpen s o resolved now = (s', .ok f)) : Open s' f resolved := by
  have hset : ∀ t : FsState, t = (if o.truncate && o.write then s.setFileLen resolved 0 now else s) →
      t.directIoFds = s.directIoFds ∧ t.nextFd = s.nextFd := by
    rintro t rfl
    split <;> exact ⟨rfl, rfl⟩
  simp only [Shim.finishOpen, FsState.allocFd] at h
  generalize ht : (if o.truncate && o.write then s.setFileLen resolved 0 now else s) = t at h
  obtain ⟨hfds, hnext⟩ := hset t ht.symm
  simp only [Prod.mk.injEq, Except.ok.injEq] at h
  obtain ⟨rfl, rfl⟩ := h
  rw [← hfds, ← hnext] at hfresh
  constructor
  · split <;> simp
  · split
    · rename_i hd
      rw [hd]
      simp
    · rename_i hd
      rw [eq_false_of_ne_true hd]
      exact hfresh

/-- `open` hands out open handles: the next descriptor is one no handle has yet. -/
theorem Open.of_openFile {s s' : FsState} {o : OpenOptions} {path : Path} {now : Duration}
    {f : File} (hfresh : s.directIoFds.contains s.nextFd = false)
    (h : Shim.openFile s o path now = (s', .ok f)) :
    ∃ resolved, Shim.openTarget s path = .ok resolved ∧ Open s' f resolved := by
  unfold Shim.openFile at h
  split at h
  · cases h
  · rename_i resolved htarget
    refine ⟨resolved, htarget, ?_⟩
    split at h
    · cases h
    · split at h
      · split at h
        · split at h
          · cases h
          · exact Open.of_finishOpen (s := s.createFileWithMode resolved now o.mode) hfresh h
        · cases h
      · exact Open.of_finishOpen hfresh h

/-- What the shim grants a handle opened with the given mode. -/
def Granted (s : FsState) (f : File) (mode : Bool) (ptr offset len : Nat) : Prop :=
  mode = true ∧ ¬(f.directIo = true ∧ Misaligned s ptr offset len)

/-- The comparison, given when each side fails and that they succeed alike: only a call the ring
does not refuse and the shim does not grant tells them apart. -/
theorem agree_iff {s t : FsState} {b : List UInt8} {n : Nat} {granted refused : Prop}
    {ring : FsState × List UInt8 × Option Int} {shim : FsState × List UInt8 × Except ShimError Nat}
    (hn : n < 2 ^ 31)
    (hring : (refused ∧ okCount ring.2.2 = none ∧ ring.1 = s)
      ∨ (¬ refused ∧ ring = (t, b, some (asI32 n))))
    (hshim : ((¬ granted ∨ refused) ∧ shim.2.2.toOption = none ∧ shim.1 = s)
      ∨ ((granted ∧ ¬ refused) ∧ shim = (t, b, .ok n))) :
    Agree s ring shim ↔ granted ∨ refused := by
  rcases hring with ⟨href, hcount, hstate⟩ | ⟨href, rfl⟩
    <;> rcases hshim with ⟨hshim, hfail, hsame⟩ | ⟨hok, rfl⟩
  · exact ⟨fun _ => Or.inr href,
      fun _ => ⟨hcount.trans hfail.symm, fun h => absurd hfail h, hstate.trans hsame.symm,
        fun _ => hsame⟩⟩
  · exact absurd href hok.2
  · have hnot : ¬ granted := hshim.resolve_right href
    constructor
    · intro hagree
      have hcount := hagree.count
      rw [hfail, okCount_asI32 hn] at hcount
      cases hcount
    · exact fun h => absurd h (not_or.mpr ⟨hnot, href⟩)
  · exact ⟨fun _ => Or.inl hok.1,
      fun _ => ⟨okCount_asI32 hn, fun _ => rfl, rfl, fun h => by cases h⟩⟩

/-! ## 4. Reads -/

section Reads

variable {s : FsState} {f : File} {path : Path}

/-- The buffer and the count after the short read and the corruption a read was told to make. -/
def faulted (faults : Shim.ReadFaults) (buf filled : List UInt8) : List UInt8 × Nat :=
  let n := filled.length
  let buf := Buffer.copyAt buf 0 filled
  let (buf, n) := match faults.short with
    | some draw =>
      if n > 1 then (Shim.fillZero buf (Shim.drawIn 1 n draw) n, Shim.drawIn 1 n draw)
      else (buf, n)
    | none => (buf, n)
  (match faults.corrupt with
    | some (draw, mask) => if n > 0 then Shim.flipByte buf (Shim.drawIn 0 n draw) mask else buf
    | none => buf, n)

theorem faulted_le (faults : Shim.ReadFaults) (buf filled : List UInt8) :
    (faulted faults buf filled).2 ≤ filled.length := by
  obtain ⟨ioError, short, corrupt⟩ := faults
  cases short with
  | none => exact Nat.le_refl _
  | some draw =>
    by_cases hn : filled.length > 1
    · simp only [faulted, hn, if_true, Shim.drawIn]
      have := Nat.mod_lt draw (show filled.length - 1 > 0 by omega)
      omega
    · simp [faulted, hn]

/-- A read fills no more than the buffer. -/
theorem readFile_length_le {filled : List UInt8} {len offset : Nat}
    (h : s.readFile path len offset = some filled) : filled.length ≤ len := by
  rw [FsState.readFile_eq_slice] at h
  split at h
  · cases h
    exact Nat.zero_le _
  · obtain ⟨c, -, rfl⟩ := Option.map_eq_some_iff.mp h
    exact List.length_take_le _ _

/-- What makes the ring refuse a read of an open handle: direct I/O that is not aligned, an
injected error, or a file whose hard links go in a circle. -/
def ReadRefused (s : FsState) (f : File) (path : Path) (ptr offset len : Nat)
    (faults : Shim.ReadFaults) : Prop :=
  (f.directIo = true ∧ s.directIoAlignment ≠ 0 ∧ Misaligned s ptr offset len)
    ∨ faults.ioError = true ∨ s.readFile path len offset = none

/-- **When a read through the ring is the shim's read**: when the shim grants it, or when the ring
refuses it too. -/
theorem reads_agree_iff (hf : Open s f path) (ptr : Nat) (buf : List UInt8) (offset : Nat)
    (faults : Shim.ReadFaults) (hlen : buf.length < 2 ^ 31) :
    ReadsAgree s f ptr buf offset faults
      ↔ Granted s f f.readable ptr offset buf.length
        ∨ ReadRefused s f path ptr offset buf.length faults := by
  have hnot : (¬(f.directIo = true ∧ s.directIoAlignment ≠ 0 ∧ Misaligned s ptr offset buf.length))
      → ∀ filled, s.readFile path buf.length offset = some filled → faults.ioError = false →
        ¬ ReadRefused s f path ptr offset buf.length faults := by
    rintro hd filled hfill he (h | h | h)
    · exact hd h
    · exact absurd (he.symm.trans h) (by decide)
    · exact absurd (hfill.symm.trans h) (by simp)
  have hfits : (faulted faults buf ((s.readFile path buf.length offset).getD [])).2 < 2 ^ 31 := by
    have hle := faulted_le faults buf ((s.readFile path buf.length offset).getD [])
    cases hfill : s.readFile path buf.length offset with
    | none =>
      rw [hfill] at hle
      exact Nat.lt_of_le_of_lt hle (by decide)
    | some filled =>
      have := readFile_length_le hfill
      rw [hfill, Option.getD_some] at hle
      rw [Option.getD_some]
      omega
  refine agree_iff (t := s)
    (b := (faulted faults buf ((s.readFile path buf.length offset).getD [])).1) hfits ?_ ?_
  · simp only [execRead, hf.path, hf.direct]
    split
    · rename_i hd
      simp only [Bool.and_eq_true, Bool.not_eq_true', directIoAligned_eq_false] at hd
      exact Or.inl ⟨Or.inl hd, rfl, rfl⟩
    · rename_i hd
      simp only [Bool.and_eq_true, Bool.not_eq_true', directIoAligned_eq_false] at hd
      cases he : faults.ioError with
      | true => exact Or.inl ⟨Or.inr (Or.inl he), rfl, rfl⟩
      | false =>
        cases hfill : s.readFile path buf.length offset with
        | none => exact Or.inl ⟨Or.inr (Or.inr hfill), rfl, rfl⟩
        | some filled => exact Or.inr ⟨hnot hd filled hfill he, rfl⟩
  · simp only [Shim.readAt, Shim.handlePath, hf.path]
    cases hr : f.readable with
    | false => exact Or.inl ⟨Or.inl fun h => absurd h.1 (by decide), rfl, rfl⟩
    | true =>
      simp only [Bool.not_true, Bool.false_eq_true, if_false]
      split
      · rename_i hd
        simp only [Bool.and_eq_true, misaligned_iff] at hd
        exact Or.inl ⟨Or.inl fun h => h.2 hd, rfl, rfl⟩
      · rename_i hd
        simp only [Bool.and_eq_true, misaligned_iff] at hd
        cases he : faults.ioError with
        | true => exact Or.inl ⟨Or.inr (Or.inr (Or.inl he)), rfl, rfl⟩
        | false =>
          cases hfill : s.readFile path buf.length offset with
          | none => exact Or.inl ⟨Or.inr (Or.inr (Or.inr hfill)), rfl, rfl⟩
          | some filled =>
            exact Or.inr ⟨⟨⟨rfl, hd⟩, hnot (fun h => hd ⟨h.1, h.2.2⟩) filled hfill he⟩, rfl⟩

end Reads

/-! ## 5. Writes -/

section Writes

variable {s : FsState} {f : File} {path : Path} {ptr offset : Nat} {buf : List UInt8}
  {faults : WriteFaults} {now : Duration}

/-- What a write leaves behind. -/
def written (s : FsState) (path : Path) (offset : Nat) (buf : List UInt8) (flush : Bool)
    (now : Duration) : FsState :=
  if flush then ((s.writeFile path offset buf now).syncFile path).1
  else s.writeFile path offset buf now

/-- A full disk: the write would grow the file by more than what is left. -/
def Full (s : FsState) (path : Path) (writeEnd : Nat) : Prop :=
  ∃ len, s.fileLen path = some len ∧ writeEnd - len > 0
    ∧ s.checkSpace (writeEnd - len) = .error .noSpace

/-- What makes the ring refuse a write to an open handle. -/
def WriteRefused (s : FsState) (f : File) (path : Path) (ptr offset len : Nat)
    (faults : WriteFaults) : Prop :=
  (f.directIo = true ∧ s.directIoAlignment ≠ 0 ∧ Misaligned s ptr offset len)
    ∨ faults.ioError = true ∨ s.fileLen path = none ∨ Full s path (offset + len)

theorem full_cases {len : Nat} (hl : s.fileLen path = some len) (writeEnd : Nat) :
    (Full s path writeEnd ∧ writeEnd - len > 0
        ∧ s.checkSpace (writeEnd - len) = .error .noSpace)
      ∨ (¬ Full s path writeEnd
        ∧ (if writeEnd - len > 0 then s.checkSpace (writeEnd - len) else .ok ()) = .ok ()) := by
  have hspace : s.checkSpace (writeEnd - len) = .ok ()
      ∨ s.checkSpace (writeEnd - len) = .error .noSpace := by
    unfold FsState.checkSpace
    split
    · exact Or.inl rfl
    · split
      · exact Or.inr rfl
      · exact Or.inl rfl
  by_cases hgrow : writeEnd - len > 0
  · rcases hspace with hok | hno
    · refine Or.inr ⟨?_, by rw [if_pos hgrow, hok]⟩
      rintro ⟨len', hl', -, hno⟩
      cases hl.symm.trans hl'
      exact absurd (hok.symm.trans hno) (by simp)
    · exact Or.inl ⟨⟨len, hl, hgrow, hno⟩, hgrow, hno⟩
  · refine Or.inr ⟨?_, by rw [if_neg hgrow]⟩
    rintro ⟨len', hl', hgrow', -⟩
    cases hl.symm.trans hl'
    exact hgrow hgrow'

/-- **When a write through the ring is the shim's write**, by the same rule. -/
theorem writes_agree_iff (hf : Open s f path) (ptr : Nat) (faults : WriteFaults) (now : Duration)
    (hlen : buf.length < 2 ^ 31) (hoff : offset + buf.length < 2 ^ 64) :
    WritesAgree s f ptr buf offset faults now
      ↔ Granted s f f.writable ptr offset buf.length
        ∨ WriteRefused s f path ptr offset buf.length faults := by
  have hnot : (¬(f.directIo = true ∧ s.directIoAlignment ≠ 0 ∧ Misaligned s ptr offset buf.length))
      → ∀ len, s.fileLen path = some len → ¬ Full s path (offset + buf.length) →
        faults.ioError = false → ¬ WriteRefused s f path ptr offset buf.length faults := by
    rintro hd len hl hfull he (h | h | h | h)
    · exact hd h
    · exact absurd (he.symm.trans h) (by decide)
    · exact absurd (hl.symm.trans h) (by simp)
    · exact hfull h
  refine agree_iff (t := written s path offset buf faults.flush now) (b := buf) hlen ?_ ?_
  · simp only [execWrite, hf.path, hf.direct]
    split
    · rename_i hd
      simp only [Bool.and_eq_true, Bool.not_eq_true', directIoAligned_eq_false] at hd
      exact Or.inl ⟨Or.inl hd, rfl, rfl⟩
    · rename_i hd
      simp only [Bool.and_eq_true, Bool.not_eq_true', directIoAligned_eq_false] at hd
      cases he : faults.ioError with
      | true => exact Or.inl ⟨Or.inr (Or.inl he), rfl, rfl⟩
      | false =>
        cases hl : s.fileLen path with
        | none => exact Or.inl ⟨Or.inr (Or.inr (Or.inl hl)), rfl, rfl⟩
        | some len =>
          simp only [ge_iff_le, Nat.not_le.mpr hoff, if_false, Bool.false_eq_true]
          rcases full_cases hl (offset + buf.length) with ⟨hfull, hgrow, hno⟩ | ⟨hfull, hok⟩
          · rw [if_pos (by simp [hgrow, hno, Except.toBool])]
            exact Or.inl ⟨Or.inr (Or.inr (Or.inr hfull)), rfl, rfl⟩
          · have hroom : ¬(decide (offset + buf.length - len > 0)
                && !(s.checkSpace (offset + buf.length - len)).toBool) = true := by
              rw [Bool.and_eq_true, decide_eq_true_eq]
              rintro ⟨hgrow, hno⟩
              rw [if_pos hgrow] at hok
              rw [hok] at hno
              exact absurd hno (by decide)
            rw [if_neg hroom]
            exact Or.inr ⟨hnot hd len hl hfull he, rfl⟩
  · have hguard : (f.directIo && (!(ptr % s.directIoAlignment == 0)
        || offset % s.directIoAlignment != 0 || buf.length % s.directIoAlignment != 0)) = true
        ↔ f.directIo = true ∧ Misaligned s ptr offset buf.length := by
      rw [Bool.and_eq_true]
      exact and_congr_right fun _ => misaligned_iff
    simp only [Shim.writeAt, Shim.handlePath, hf.path]
    cases hr : f.writable with
    | false => exact Or.inl ⟨Or.inl fun h => absurd h.1 (by decide), rfl, rfl⟩
    | true =>
      simp only [Bool.not_true, Bool.false_eq_true, if_false]
      split
      · rename_i hd
        exact Or.inl ⟨Or.inl fun h => h.2 (hguard.mp hd), rfl, rfl⟩
      · rename_i hd
        rw [hguard] at hd
        cases he : faults.ioError with
        | true => exact Or.inl ⟨Or.inr (Or.inr (Or.inl he)), rfl, rfl⟩
        | false =>
          cases hl : s.fileLen path with
          | none => exact Or.inl ⟨Or.inr (Or.inr (Or.inr (Or.inl hl))), rfl, rfl⟩
          | some len =>
            rcases full_cases hl (offset + buf.length) with ⟨hfull, hgrow, hno⟩ | ⟨hfull, hok⟩
            · simp only [hgrow, hno, if_true]
              exact Or.inl ⟨Or.inr (Or.inr (Or.inr (Or.inr hfull))), rfl, rfl⟩
            · simp only [hok]
              exact Or.inr ⟨⟨⟨rfl, hd⟩, hnot (fun h => hd ⟨h.1, h.2.2⟩) len hl hfull he⟩, rfl⟩

end Writes

/-! ## 6. The comparison -/

/-- **The ring and the shim**, on every open handle, buffer, offset and outcome of the random
decisions: a call has the same count, bytes and state on both sides exactly when the shim grants
it by the handle's mode and alignment, or the ring has a reason of its own to refuse it. -/
theorem ring_agrees_with_shim_iff (s : FsState) (f : File) (path : Path) (hf : Open s f path)
    (ptr : Nat) (buf : List UInt8) (offset : Nat) (hlen : buf.length < 2 ^ 31)
    (hoff : offset + buf.length < 2 ^ 64) (readFaults : Shim.ReadFaults)
    (writeFaults : WriteFaults) (now : Duration) :
    (ReadsAgree s f ptr buf offset readFaults
        ↔ Granted s f f.readable ptr offset buf.length
          ∨ ReadRefused s f path ptr offset buf.length readFaults)
      ∧ (WritesAgree s f ptr buf offset writeFaults now
        ↔ Granted s f f.writable ptr offset buf.length
          ∨ WriteRefused s f path ptr offset buf.length writeFaults) := by
  exact ⟨reads_agree_iff hf ptr buf offset readFaults hlen,
    writes_agree_iff hf ptr writeFaults now hlen hoff⟩

/-! ### A write-only handle -/

/-- A filesystem with one file of two bytes, and the handle it was created with. -/
def logFile : FsState × File :=
  let o := { OpenOptions.default with write := true, create := true }
  let path := Path.abs ["log"]
  let s := (Shim.openFile (FsState.new FsConfig.default) o path 0).1
  (s.writeFile path 0 [7, 8] 0, ⟨simFdBase, false, true, false, false⟩)

theorem logFile_opened : (Shim.openFile (FsState.new FsConfig.default)
    { OpenOptions.default with write := true, create := true } (Path.abs ["log"]) 0).2
      = .ok logFile.2 := by
  rfl

/-- The handle is open: `open` handed it out, and a write changes no handle. -/
theorem logFile_open : Open logFile.1 logFile.2 (Path.abs ["log"]) := by
  obtain ⟨resolved, htarget, hopen⟩ := Open.of_openFile rfl (Prod.ext rfl logFile_opened)
  obtain rfl : Path.abs ["log"] = resolved := Except.ok.inj htarget
  exact ⟨hopen.path, hopen.direct⟩

/-- A write through the ring, at the end of the file. -/
theorem ring_agrees_with_shim_iff_logFile :
    WritesAgree logFile.1 logFile.2 512 [9] 2 ⟨false, false⟩ 0
      ∧ ¬ ReadsAgree logFile.1 logFile.2 512 [0, 0] 0 ⟨false, none, none⟩ := by
  have hwrite := (ring_agrees_with_shim_iff logFile.1 logFile.2 _ logFile_open 512 [9] 2 (by decide)
    (by decide) ⟨false, none, none⟩ ⟨false, false⟩ 0).2
  have hread := (ring_agrees_with_shim_iff logFile.1 logFile.2 _ logFile_open 512 [0, 0] 0 (by decide)
    (by decide) ⟨false, none, none⟩ ⟨false, false⟩ 0).1
  constructor
  · exact hwrite.mpr (Or.inl ⟨rfl, fun h => absurd h.1 (by decide)⟩)
  · rw [hread]
    rintro (h | h | h | h)
    · exact absurd h.1 (by decide)
    · exact absurd h.1 (by decide)
    · exact absurd h (by decide)
    · exact absurd h (by decide)

/-- **The ring reads a file that was opened for writing only.**  The shim refuses. -/
theorem ring_reads_write_only_handle :
    okCount (execRead logFile.1 logFile.2.fd 512 [0, 0] 0 ⟨false, none, none⟩).2.2 = some 2
      ∧ (execRead logFile.1 logFile.2.fd 512 [0, 0] 0 ⟨false, none, none⟩).2.1 = [7, 8]
      ∧ (Shim.readAt logFile.1 logFile.2 512 [0, 0] 0 ⟨false, none, none⟩).2.2
        = .error (.io .permissionDenied "file not opened for reading")
      ∧ Open logFile.1 logFile.2 (Path.abs ["log"])
      ∧ ¬ ReadsAgree logFile.1 logFile.2 512 [0, 0] 0 ⟨false, none, none⟩ := by
  have hring : okCount (execRead logFile.1 logFile.2.fd 512 [0, 0] 0 ⟨false, none, none⟩).2.2
      = some 2 := by
    decide
  refine ⟨hring, by decide, rfl, logFile_open, fun hagree => ?_⟩
  have hcount := hagree.count
  rw [hring] at hcount
  exact absurd hcount (by decide)

end Turmoil.Uring
