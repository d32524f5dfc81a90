/-
# What a failed call leaves behind

The operations of `FsState`, the shim's `open`, `write_at` and `read_at` and the operations of the
ring check first and change the state afterwards: a call that reports an error has changed nothing,
neither the durable maps nor the queue nor the handles nor the page cache.

The exception is a result that only looks like an error.  `exec_write` returns the length of the
buffer, a `u32`, as an `i32`; from 2^31 bytes on that is negative, and a negative result is an errno
to whoever reads the completion.  `failed_calls_change_nothing_iff` says when a reported error means
that nothing happened.
-/
import Turmoil.Uring.Exec

namespace Turmoil.Uring

open Fs

/-! ## 1. The calls and what they report -/

/-- A buffer whose length fits the `u32` of a submission entry. -/
abbrev EntryBuf := { buf : List UInt8 // buf.length < 2 ^ 32 }

inductive Call where
  | mkdirWithMode (path : Path) (time : Duration) (mode : Nat)
  | rmdir (path : Path)
  | unlink (path : Path)
  | rename (src dst : Path)
  | createSymlink (path target : Path) (time : Duration)
  | createHardLink (path target : Path) (time : Duration)
  | setPermissions (path : Path) (mode : Nat) (time : Duration)
  | syncFile (path : Path)
  | syncFileData (path : Path)
  | syncDir (path : Path) (time : Duration)
  | openFile (options : OpenOptions) (path : Path) (now : Duration)
  | writeAt (file : File) (offset : Nat) (buf : List UInt8) (ptrAligned ioError flush : Bool)
    (now : Duration)
  | readAt (file : File) (ptr : Nat) (buf : List UInt8) (offset : Nat) (faults : Shim.ReadFaults)
  | execRead (fd : RawFd) (ptr : Nat) (buf : EntryBuf) (offset : Nat) (faults : Shim.ReadFaults)
  | execWrite (fd : RawFd) (ptr : Nat) (buf : EntryBuf) (offset : Nat) (faults : WriteFaults)
    (now : Duration)
  | execFsync (fd : RawFd) (ioError : Bool)

/-- The state after a call that returns a `Result`, and whether it reported an error. -/
def reported {ε α : Type} (r : FsState × Except ε α) : FsState × Bool := (r.1, !r.2.toBool)

/-- A completion reports an error by a negative result. -/
def completed (s : FsState) (result : Option Int) : FsState × Bool :=
  (s, result.any fun r => decide (r < 0))

def call (s : FsState) : Call → FsState × Bool
  | .mkdirWithMode path time mode => reported (s.mkdirWithMode path time mode)
  | .rmdir path => reported (s.rmdir path)
  | .unlink path => reported (s.unlink path)
  | .rename src dst => reported (s.rename src dst)
  | .createSymlink path target time => reported (s.createSymlink path target time)
  | .createHardLink path target time => reported (s.createHardLink path target time)
  | .setPermissions path mode time => reported (s.setPermissions path mode time)
  | .syncFile path => reported (s.syncFile path)
  | .syncFileData path => reported (s.syncFileData path)
  | .syncDir path time => reported (s.syncDir path time)
  | .openFile options path now => reported (Shim.openFile s options path now)
  | .writeAt file offset buf ptrAligned ioError flush now =>
    reported (Shim.writeAt s file offset buf ptrAligned ioError flush now)
  | .readAt file ptr buf offset faults =>
    let (s, _, result) := Shim.readAt s file ptr buf offset faults
    reported (s, result)
  | .execRead fd ptr buf offset faults =>
    let (s, _, result) := execRead s fd ptr buf.1 offset faults
    completed s result
  | .execWrite fd ptr buf offset faults now =>
    let (s, result) := execWrite s fd ptr buf.1 offset faults now
    completed s result
  | .execFsync fd ioError =>
    let (s, result) := execFsync s fd ioError
    completed s (some result)

/-- A call that reports an error has changed nothing. -/
def HonestAbout (s : FsState) (c : Call) : Prop := (call s c).2 = true → (call s c).1 = s

/-! ## 2. The calls that return a `Result` -/

variable {s : FsState}

/-- Error results come with the state of before. -/
def Untouched {ε α : Type} (s : FsState) (r : FsState × Except ε α) : Prop :=
  ∀ e, r.2 = .error e → r.1 = s

theorem Untouched.error {ε α : Type} {e : ε} : Untouched s ((s, .error e) : FsState × Except ε α) :=
  fun _ _ => rfl

theorem Untouched.ok {ε α : Type} {t : FsState} {a : α} :
    Untouched s ((t, .ok a) : FsState × Except ε α) := fun _ h => by cases h

/-- What the case lemma of an operation says. -/
theorem Untouched.of_cases {ε : Type} {t : FsState} {r : FsState × Except ε Unit} {p : Prop}
    (h : (∃ e, r = (s, .error e)) ∨ (r = (t, .ok ()) ∧ p)) : Untouched s r := by
  rcases h with ⟨e, rfl⟩ | ⟨rfl, -⟩
  · exact .error
  · exact .ok

theorem Untouched.reported {ε α : Type} {r : FsState × Except ε α} (h : Untouched s r)
    (herr : (reported r).2 = true) : (Uring.reported r).1 = s := by
  obtain ⟨t, result⟩ := r
  cases result with
  | error e => exact h e rfl
  | ok a => cases herr

theorem untouched_flushFile (path : Path) : Untouched s (s.flushFile path) := by
  cases h : s.fileExists path with
  | false =>
    rw [FsState.flushFile_err h]
    exact .error
  | true =>
    obtain ⟨files, f, heq, -⟩ := FsState.flushFile_spec h
    rw [heq]
    exact .ok

theorem untouched_syncDir (path : Path) (time : Duration) : Untouched s (s.syncDir path time) := by
  cases h : s.dirExists path with
  | false =>
    rw [FsState.syncDir_err h]
    exact .error
  | true =>
    obtain ⟨dirs, heq, -⟩ := FsState.syncDir_spec h time
    rw [heq]
    exact .ok

theorem untouched_openFile (o : OpenOptions) (path : Path) (now : Duration) :
    Untouched s (Shim.openFile s o path now) := by
  unfold Shim.openFile
  split
  · exact .error
  · split
    · exact .error
    · split
      · split
        · split
          · exact .error
          · exact .ok
        · exact .error
      · exact .ok

theorem untouched_writeAt (f : File) (offset : Nat) (buf : List UInt8)
    (ptrAligned ioError flush : Bool) (now : Duration) :
    Untouched s (Shim.writeAt s f offset buf ptrAligned ioError flush now) := by
  unfold Shim.writeAt
  split
  · exact .error
  · split
    · exact .error
    · split
      · exact .error
      · split
        · exact .error
        · split
          · exact .error
          · dsimp only
            split
            · exact .error
            · exact .ok

/-- A read changes nothing at all. -/
theorem readAt_state (f : File) (ptr : Nat) (buf : List UInt8) (offset : Nat)
    (faults : Shim.ReadFaults) : (Shim.readAt s f ptr buf offset faults).1 = s := by
  unfold Shim.readAt
  split
  · rfl
  · split
    · rfl
    · split
      · rfl
      · split
        · rfl
        · split <;> rfl

/-! ## 3. The ring's operations -/

theorem execRead_state (fd : RawFd) (ptr : Nat) (buf : List UInt8) (offset : Nat)
    (faults : Shim.ReadFaults) : (execRead s fd ptr buf offset faults).1 = s := by
  unfold execRead
  split
  · rfl
  · split
    · rfl
    · split
      · rfl
      · split <;> rfl

/-- `exec_fsync` fails with the state of before, or returns 0. -/
theorem execFsync_cases (fd : RawFd) (ioError : Bool) :
    (execFsync s fd ioError).1 = s ∨ (execFsync s fd ioError).2 = 0 := by
  unfold execFsync
  split
  · exact Or.inl rfl
  · split
    · exact Or.inl rfl
    · rename_i path _ _
      cases h : s.fileExists path with
      | false =>
        rw [FsState.syncFile, FsState.flushFile_err h]
        exact Or.inl rfl
      | true =>
        obtain ⟨files, f, heq, -⟩ := FsState.flushFile_spec h
        rw [FsState.syncFile, heq]
        exact Or.inr rfl

/-- `exec_write` gets as far as writing: the descriptor is open, for direct I/O the call is
aligned, no error was injected, and the bytes fit. -/
def Admits (s : FsState) (fd : RawFd) (ptr len offset : Nat) (faults : WriteFaults)
    (path : Path) : Prop :=
  s.openHandles.get? fd = some path
    ∧ (s.directIoFds.contains fd && !directIoAligned s ptr offset len) = false
    ∧ faults.ioError = false ∧ (∃ current, s.fileLen path = some current)
    ∧ offset + len < 2 ^ 64 ∧ ¬ Full s path (offset + len)

/-- **`exec_write`** refuses with the state of before, or does the write and returns the length. -/
theorem execWrite_cases (fd : RawFd) (ptr : Nat) (buf : List UInt8) (offset : Nat)
    (faults : WriteFaults) (now : Duration) :
    ((∀ path, ¬ Admits s fd ptr buf.length offset faults path)
        ∧ (execWrite s fd ptr buf offset faults now).1 = s)
      ∨ ∃ path, Admits s fd ptr buf.length offset faults path
        ∧ execWrite s fd ptr buf offset faults now
          = (written s path offset buf faults.flush now, some (asI32 buf.length)) := by
  unfold execWrite
  split
  · rename_i hfd
    exact Or.inl ⟨fun path h => absurd (hfd.symm.trans h.1) (by simp), rfl⟩
  · rename_i path hfd
    have hpath : ∀ {q}, Admits s fd ptr buf.length offset faults q → q = path :=
      fun h => Option.some.inj (h.1.symm.trans hfd)
    split
    · rename_i hd
      exact Or.inl ⟨fun q h => absurd (hd.symm.trans h.2.1) (by decide), rfl⟩
    · rename_i hd
      split
      · rename_i he
        exact Or.inl ⟨fun q h => absurd (he.symm.trans h.2.2.1) (by decide), rfl⟩
      · rename_i he
        split
        · rename_i hlen
          refine Or.inl ⟨fun q h => ?_, rfl⟩
          obtain ⟨current, hc⟩ := h.2.2.2.1
          rw [hpath h, hlen] at hc
          cases hc
        · rename_i current hlen
          split
          · rename_i hbig
            exact Or.inl ⟨fun q h => Nat.not_le.mpr h.2.2.2.2.1 hbig, rfl⟩
          · rename_i hfits
            rcases full_cases hlen (offset + buf.length) with ⟨hfull, hgrow, hno⟩ | ⟨hfull, hok⟩
            · refine Or.inl ⟨fun q h => ?_, ?_⟩
              · rw [hpath h] at h
                exact h.2.2.2.2.2 hfull
              · simp [hgrow, hno, Except.toBool]
            · refine Or.inr ⟨path, ⟨hfd, eq_false_of_ne_true hd, eq_false_of_ne_true he,
                ⟨current, hlen⟩, Nat.not_le.mp hfits, hfull⟩, ?_⟩
              have hroom : ¬(decide (offset + buf.length - current > 0)
                  && !(s.checkSpace (offset + buf.length - current)).toBool) = true := by
                rw [Bool.and_eq_true, decide_eq_true_eq]
                rintro ⟨hgrow, hno⟩
                rw [if_pos hgrow] at hok
                rw [hok] at hno
                exact absurd hno (by decide)
              simp only [hroom]
              rfl

/-- The write was flushed at once and put back the bytes and the times that were stored already. -/
structure PutsBack (s : FsState) (path : Path) (offset : Nat) (buf : List UInt8) (flush : Bool)
    (now : Duration) : Prop where
  flushed : flush = true
  here : s.fileExists path = true
  alone : ∀ op ∈ s.pending, FsState.isDataOf path op = false
  same : ∃ f, s.persistedFiles.get? path = some f ∧ f.applyWrite offset buf now = f

theorem fileExists_writeFile {path : Path} {offset : Nat} {buf : List UInt8} {now : Duration} :
    (s.writeFile path offset buf now).fileExists path = s.fileExists path := by
  unfold FsState.writeFile
  split
  · rfl
  · rw [FsState.fileExists, FsState.entryKind_push]
    rfl

/-- The flush of a write that is the only pending data of a stored file. -/
theorem flushFile_push_write {path : Path} {offset : Nat} {buf : List UInt8} {now : Duration}
    {f : FileData} (hfile : s.fileExists path = true)
    (halone : ∀ op ∈ s.pending, FsState.isDataOf path op = false)
    (hf : s.persistedFiles.get? path = some f) :
    ((s.push (.write path offset buf now)).flushFile path).1 = { s with
      persistedFiles := s.persistedFiles.modify path fun f => f.applyWrite offset buf now } := by
  have hpush : (s.push (.write path offset buf now)).fileExists path = true := by
    rw [FsState.fileExists, FsState.entryKind_push]
    exact hfile
  have hwrite : FsState.isDataOf path (.write path offset buf now) = true := by
    simp [FsState.isDataOf]
  have hkeep : s.pending.filter (fun op => !FsState.isDataOf path op) = s.pending :=
    List.filter_eq_self.mpr fun op hop => by rw [halone op hop]; rfl
  have hnone : s.pending.filter (FsState.isDataOf path) = [] :=
    List.filter_eq_nil_iff.mpr fun op hop => by simp [halone op hop]
  have hstored : s.persistedFiles.contains path = true := IndexMap.contains_iff.mpr ⟨f, hf⟩
  rw [FsState.flushFile, if_neg (by simp [hpush])]
  simp [FsState.push, List.filter_append, hkeep, hnone, hwrite, hstored,
    FsState.applyOpToPersisted]

/-- **When a write leaves nothing behind.** -/
theorem written_eq_iff {path : Path} {offset : Nat} {buf : List UInt8} (hbuf : buf ≠ [])
    (flush : Bool) (now : Duration) :
    written s path offset buf flush now = s ↔ PutsBack s path offset buf flush now := by
  have hwrite : s.writeFile path offset buf now = s.push (.write path offset buf now) := by
    rw [FsState.writeFile, if_neg (by simpa using hbuf)]
  have hqueued : ∀ t : FsState, t.pending = s.pending ++ [.write path offset buf now] → t ≠ s := by
    rintro t ht rfl
    simpa using congrArg List.length ht
  have hexists : (s.writeFile path offset buf now).fileExists path = s.fileExists path :=
    fileExists_writeFile
  rw [hwrite] at hexists
  cases flush with
  | false =>
    rw [written, if_neg (by decide), hwrite]
    exact iff_of_false (hqueued _ rfl) fun h => absurd h.flushed (by decide)
  | true =>
    rw [written, if_pos rfl, hwrite, FsState.syncFile]
    cases hfile : s.fileExists path with
    | false =>
      rw [FsState.flushFile_err (hexists.trans hfile)]
      exact iff_of_false (hqueued _ rfl) fun h => absurd (hfile.symm.trans h.here) (by decide)
    | true =>
      have hwritten : FsState.isDataOf path (.write path offset buf now) = true := by
        simp [FsState.isDataOf]
      constructor
      · intro heq
        obtain ⟨files, f, hflush, hget, -, -⟩ := FsState.flushFile_spec (hexists.trans hfile)
        have hpend := congrArg FsState.pending heq
        rw [hflush] at hpend
        simp only [FsState.push, List.filter_append, List.filter_cons, hwritten, Bool.not_true,
          Bool.false_eq_true, if_false, List.filter_nil, List.append_nil] at hpend
        have halone : ∀ op ∈ s.pending, FsState.isDataOf path op = false := fun op hop => by
          simpa using List.filter_eq_self.mp hpend op hop
        have hstored := congrArg (fun t : FsState => t.persistedFiles.get? path) heq
        simp only [hflush, hget] at hstored
        rw [flushFile_push_write hfile halone hstored.symm] at heq
        have hsame := congrArg (fun t : FsState => t.persistedFiles.get? path) heq
        simp only [IndexMap.get?_modify, if_true, ← hstored, Option.map_some,
          Option.some.injEq] at hsame
        exact ⟨rfl, hfile, halone, f, hstored.symm, hsame⟩
      · rintro ⟨-, -, halone, f, hf, hsame⟩
        have hself : s.persistedFiles.modify path (fun f => f.applyWrite offset buf now)
            = s.persistedFiles := IndexMap.modify_self fun g hg => by
          obtain rfl : f = g := Option.some.inj (hf.symm.trans hg)
          exact hsame
        rw [flushFile_push_write hfile halone hf, hself]

/-! ## 4. All calls -/

/-- The condition on a call: only `exec_write` has one, from 2^31 bytes on. -/
def Harmless (s : FsState) : Call → Prop
  | .execWrite fd ptr buf offset faults now =>
    2 ^ 31 ≤ buf.1.length → ∀ path, Admits s fd ptr buf.1.length offset faults path →
      PutsBack s path offset buf.1 faults.flush now
  | _ => True

theorem asI32_neg_iff {n : Nat} (h : n < 2 ^ 32) : asI32 n < 0 ↔ 2 ^ 31 ≤ n := by
  have hn : (BitVec.ofNat 32 n).toNat = n := by
    rw [BitVec.toNat_ofNat, Nat.mod_eq_of_lt h]
  rw [asI32, BitVec.toInt_eq_toNat_cond, hn]
  split <;> omega

/-- **A reported error means that nothing happened**, for every one of the calls in every state,
unless it is the length of a write of 2^31 bytes or more that was done and left something behind. -/
theorem failed_calls_change_nothing_iff (s : FsState) (c : Call) :
    HonestAbout s c ↔ Harmless s c := by
  cases c with
  | mkdirWithMode path time mode =>
    exact iff_of_true (Untouched.of_cases (s.mkdir_cases path time mode)).reported trivial
  | rmdir path => exact iff_of_true (Untouched.of_cases (s.rmdir_cases path)).reported trivial
  | unlink path => exact iff_of_true (Untouched.of_cases (s.unlink_cases path)).reported trivial
  | rename src dst =>
    exact iff_of_true (Untouched.of_cases (s.rename_cases src dst)).reported trivial
  | createSymlink path target time =>
    exact iff_of_true (Untouched.of_cases (s.createSymlink_cases path target time)).reported trivial
  | createHardLink path target time =>
    exact iff_of_true (Untouched.of_cases (s.createHardLink_cases path target time)).reported
      trivial
  | setPermissions path mode time =>
    have hcases := s.setPermissions_cases path mode time
    exact iff_of_true (Untouched.of_cases (p := True)
      (hcases.imp_right fun h => ⟨h, trivial⟩)).reported trivial
  | syncFile path => exact iff_of_true (untouched_flushFile path).reported trivial
  | syncFileData path => exact iff_of_true (untouched_flushFile path).reported trivial
  | syncDir path time => exact iff_of_true (untouched_syncDir path time).reported trivial
  | openFile o path now => exact iff_of_true (untouched_openFile o path now).reported trivial
  | writeAt f offset buf ptrAligned ioError flush now =>
    exact iff_of_true (untouched_writeAt f offset buf ptrAligned ioError flush now).reported trivial
  | readAt f ptr buf offset faults =>
    exact iff_of_true (fun _ => readAt_state f ptr buf offset faults) trivial
  | execRead fd ptr buf offset faults =>
    exact iff_of_true (fun _ => execRead_state fd ptr buf.1 offset faults) trivial
  | execFsync fd ioError =>
    refine iff_of_true (fun herr => ?_) trivial
    rcases execFsync_cases (s := s) fd ioError with hsame | hzero
    · exact hsame
    · simp [call, completed, hzero] at herr
  | execWrite fd ptr buf offset faults now =>
    obtain ⟨buf, hlen⟩ := buf
    have hrun : call s (.execWrite fd ptr ⟨buf, hlen⟩ offset faults now)
        = completed (execWrite s fd ptr buf offset faults now).1
          (execWrite s fd ptr buf offset faults now).2 := rfl
    rw [HonestAbout, hrun]
    rcases execWrite_cases (s := s) fd ptr buf offset faults now with ⟨hno, hsame⟩ | ⟨path, hok, hw⟩
    · exact iff_of_true (fun _ => hsame) fun _ path h => absurd h (hno path)
    · have honly : ∀ q, Admits s fd ptr buf.length offset faults q → q = path := fun q h =>
        Option.some.inj (h.1.symm.trans hok.1)
      simp only [hw, completed, Option.any_some, decide_eq_true_eq, asI32_neg_iff hlen, Harmless]
      refine imp_congr_right fun hbig => ?_
      have hbuf : buf ≠ [] := by
        rintro rfl
        simp at hbig
      rw [written_eq_iff hbuf]
      exact ⟨fun h q hq => honly q hq ▸ h, fun h => h path hok⟩

theorem exists_buf (len : Nat) : ∃ buf : List UInt8, buf.length = len :=
  ⟨List.replicate len 0, List.length_replicate⟩

/-- **A write of nearly four gigabytes is done and reports `EBADF`.** -/
theorem length_reported_as_ebadf :
    (∃ buf : EntryBuf,
        (execWrite logFile.1 logFile.2.fd 512 buf.1 0 ⟨false, false⟩ 0).2 = some (-ebadf)
          ∧ (execWrite logFile.1 logFile.2.fd 512 buf.1 0 ⟨false, false⟩ 0).1 ≠ logFile.1)
      ∧ ¬ ∀ (s : FsState) (c : Call), HonestAbout s c := by
  obtain ⟨buf, hlen⟩ := exists_buf (2 ^ 32 - 9)
  have hok : Admits logFile.1 logFile.2.fd 512 buf.length 0 ⟨false, false⟩ (Path.abs ["log"]) := by
    refine ⟨rfl, rfl, rfl, ⟨2, by decide⟩, by rw [hlen]; decide, ?_⟩
    rintro ⟨current, -, -, hno⟩
    cases hno
  have hrun := (execWrite_cases (s := logFile.1) logFile.2.fd 512 buf 0 ⟨false, false⟩ 0).resolve_left
    fun h => h.1 _ hok
  obtain ⟨path, -, hw⟩ := hrun
  have hchanged : written logFile.1 path 0 buf false 0 ≠ logFile.1 := by
    rw [Ne, written_eq_iff (by rintro rfl; simp at hlen)]
    exact fun h => absurd h.flushed (by decide)
  have hresult : asI32 buf.length = -ebadf := by
    rw [hlen]
    decide
  refine ⟨⟨⟨buf, by rw [hlen]; decide⟩, by rw [hw, hresult], by rw [hw]; exact hchanged⟩, fun h => ?_⟩
  have hhonest := h logFile.1 (.execWrite logFile.2.fd 512 ⟨buf, by rw [hlen]; decide⟩ 0
    ⟨false, false⟩ 0)
  simp only [HonestAbout, call, hw, completed, hresult] at hhonest
  exact hchanged (hhonest (by decide))

end Turmoil.Uring
