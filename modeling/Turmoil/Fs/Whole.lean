/-
# Whole-file reads and copies

`read` fetches a file by one positional read into a buffer of the file's length and throws the count
away, so a short read hands its zeroed tail out as the file's bytes; `copy` writes down what `read`
gave it, under the name it opened.  Two things can go wrong, and `whole_reads_iff` says exactly when
neither does:

* the read is cut before a byte that is not zero (`CutHarmless`);
* the bytes are written under a name the target's content is not found by, or meet other names' data
  when they are flushed (`CopyOk`).
-/
import Turmoil.Fs.SyncView
import Turmoil.Fs.Attribution
import Turmoil.Fs.Shim

namespace Turmoil.Fs

open Buffer

/-! ## 1. The calls -/

namespace Shim

/-- What `File::open` and `File::create` open with. -/
def readOptions : OpenOptions := { OpenOptions.default with read := true }
def createOptions : OpenOptions :=
  { OpenOptions.default with write := true, create := true, truncate := true }

/-- `File::metadata().len()`. -/
def metadataLen (s : FsState) (f : File) : Except ShimError Nat :=
  match handlePath s f with
  | .error e => .error e
  | .ok path =>
    match s.fileLen path with
    | none => .error .overflow
    | some len => .ok len

/-- `fs::read`, into a buffer at address `ptr`. -/
def read (s : FsState) (path : Path) (ptr : Nat) (faults : ReadFaults) (now : Duration) :
    ShimResult (List UInt8) :=
  match openFile s readOptions path now with
  | (s, .error e) => (s, .error e)
  | (s, .ok file) =>
    match metadataLen s file with
    | .error e => (dropFile s file, .error e)
    | .ok len =>
      let buf := List.replicate len 0
      if len > 0 then
        match readAt s file ptr buf 0 faults with
        | (s, _, .error e) => (dropFile s file, .error e)
        | (s, buf, .ok _) => (dropFile s file, .ok buf)
      else (dropFile s file, .ok buf)

/-- `fs::write`; `flush` says whether the write was flushed at once. -/
def write (s : FsState) (path : Path) (contents : List UInt8) (ioError flush : Bool)
    (now : Duration) : ShimResult Unit :=
  match openFile s createOptions path now with
  | (s, .error e) => (s, .error e)
  | (s, .ok file) =>
    if contents.isEmpty then (dropFile s file, .ok ())
    else
      match writeAt s file 0 contents true ioError flush now with
      | (s, .error e) => (dropFile s file, .error e)
      | (s, .ok _) => (dropFile s file, .ok ())

/-- `fs::copy`. -/
def copy (s : FsState) (src dst : Path) (ptr : Nat) (faults : ReadFaults) (ioError flush : Bool)
    (now : Duration) : ShimResult Nat :=
  match read s src ptr faults now with
  | (s, .error e) => (s, .error e)
  | (s, .ok contents) =>
    match write s dst contents ioError flush now with
    | (s, .error e) => (s, .error e)
    | (s, .ok ()) => (s, .ok contents.length)

end Shim

/-! ## 2. A read that is cut -/

/-- The bytes of a file as a short read shows them. -/
def cutBytes (bytes : List UInt8) : Option Nat → List UInt8
  | none => bytes
  | some draw =>
    if bytes.length > 1 then
      Shim.fillZero bytes (Shim.drawIn 1 bytes.length draw) bytes.length
    else bytes

/-- All bytes from the cut on are zero. -/
def CutHarmless (bytes : List UInt8) (short : Option Nat) : Prop :=
  ∀ draw, short = some draw → ∀ i, Shim.drawIn 1 bytes.length draw ≤ i → i < bytes.length →
    bytes.getD i 0 = 0

theorem drawIn_lt {n : Nat} (h : 1 < n) (draw : Nat) : Shim.drawIn 1 n draw < n := by
  have := Nat.mod_lt draw (show n - 1 > 0 by omega)
  rw [Shim.drawIn]
  omega

theorem length_fillZero {buf : List UInt8} {lo hi : Nat} (h : lo ≤ hi) (hhi : hi ≤ buf.length) :
    (Shim.fillZero buf lo hi).length = buf.length :=
  length_copyAt (by rw [List.length_replicate]; omega)

@[simp] theorem length_cutBytes (bytes : List UInt8) (short : Option Nat) :
    (cutBytes bytes short).length = bytes.length := by
  cases short with
  | none => rfl
  | some draw =>
    rw [cutBytes]
    split
    · rename_i h
      exact length_fillZero (Nat.le_of_lt (drawIn_lt h draw)) (Nat.le_refl _)
    · rfl

/-- **A short read is harmless** exactly if it cuts off nothing but zeros. -/
theorem cutBytes_eq_iff (bytes : List UInt8) (short : Option Nat) :
    cutBytes bytes short = bytes ↔ CutHarmless bytes short := by
  cases short with
  | none => exact iff_of_true rfl fun _ h => nomatch h
  | some draw =>
    rw [cutBytes]
    split
    · rename_i hlen
      have hcut := drawIn_lt hlen draw
      have hbyte : ∀ i,
          (Shim.fillZero bytes (Shim.drawIn 1 bytes.length draw) bytes.length).getD i 0
            = if Shim.drawIn 1 bytes.length draw ≤ i then 0 else bytes.getD i 0 := by
        intro i
        rw [Shim.fillZero, getD_copyAt (by rw [List.length_replicate]; omega),
          List.length_replicate]
        by_cases hi : Shim.drawIn 1 bytes.length draw ≤ i
        · rw [if_pos hi]
          split
          · rw [List.getD_replicate _ (by omega)]
          · exact getD_of_le (by omega)
        · rw [if_neg (fun h => hi h.1), if_neg hi]
      constructor
      · rintro heq draw' rfl' i hi -
        cases rfl'
        rw [← heq, hbyte, if_pos hi]
      · intro h
        refine ext_getD (length_fillZero (Nat.le_of_lt hcut) (Nat.le_refl _)) fun i hi => ?_
        rw [length_fillZero (Nat.le_of_lt hcut) (Nat.le_refl _)] at hi
        rw [hbyte]
        split
        · rename_i hle
          exact (h draw rfl i hle hi).symm
        · rfl
    · rename_i hlen
      refine iff_of_true rfl fun draw' _ i hi hlt => ?_
      rw [Shim.drawIn] at hi
      omega

/-! ## 3. States with the same files -/

/-- The states differ in handles and caches at most. -/
structure SameFiles (s t : FsState) : Prop where
  files : t.persistedFiles = s.persistedFiles
  dirs : t.persistedDirs = s.persistedDirs
  links : t.persistedSymlinks = s.persistedSymlinks
  pending : t.pending = s.pending

namespace SameFiles

open FsState

variable {s t u : FsState}

theorem trans (h : SameFiles s t) (h' : SameFiles t u) : SameFiles s u :=
  ⟨h'.files.trans h.files, h'.dirs.trans h.dirs, h'.links.trans h.links,
    h'.pending.trans h.pending⟩

theorem push (h : SameFiles s t) (op : PendingOp) : SameFiles (s.push op) (t.push op) :=
  ⟨h.files, h.dirs, h.links, congrArg (· ++ [op]) h.pending⟩

theorem entryKind (h : SameFiles s t) : t.entryKind = s.entryKind := by
  have hbase : t.persistedKind = s.persistedKind :=
    kind_congr (bits_congr h.files (fun q => by rw [h.dirs]) h.links)
  rw [entryKind_eq_replay, entryKind_eq_replay, hbase, h.pending]

theorem fileExists (h : SameFiles s t) (q : Path) : t.fileExists q = s.fileExists q := by
  rw [FsState.fileExists, FsState.fileExists, h.entryKind]

theorem openTarget (h : SameFiles s t) (q : Path) :
    Shim.openTarget t q = Shim.openTarget s q := by
  have hlink : t.readLink q = s.readLink q := by
    have hstored : t.storedLink = s.storedLink := by
      funext r
      rw [storedLink, storedLink, h.links]
    rw [readLink_eq, readLink_eq, hstored, h.pending]
  rw [Shim.openTarget, Shim.openTarget, symlinkExists, symlinkExists, h.entryKind, hlink]

theorem resolve (h : SameFiles s t) (q : Path) : t.resolveContentPath q = s.resolveContentPath q :=
  resolveContentPath_congr h.pending q

theorem storedContent (h : SameFiles s t) (c : Path) : t.storedContent c = s.storedContent c := by
  rw [FsState.storedContent, FsState.storedContent, h.files]

theorem dataAt (h : SameFiles s t) (c : Path) : t.dataAt c = s.dataAt c := by
  have haddr : ∀ x, t.addressesContent x c = s.addressesContent x c := fun x => by
    rw [addressesContent, addressesContent, pathRenamedTo_eq, pathRenamedTo_eq, h.pending]
  rw [FsState.dataAt, FsState.dataAt, h.pending]
  exact List.filter_congr fun op _ => isDataAt_congr haddr op

theorem content (h : SameFiles s t) (q : Path) : t.content q = s.content q := by
  rw [content_eq_view, content_eq_view, h.resolve]
  simp only [h.storedContent, h.dataAt]

theorem applied (h : SameFiles s t) (q : Path) : t.applied q = s.applied q := by
  rw [FsState.applied, FsState.applied, h.storedContent, h.pending]

end SameFiles

/-- A state that has handed out a descriptor for `r`. -/
def opened (s : FsState) (r : Path) : FsState :=
  { s with nextFd := s.nextFd + 1, openHandles := s.openHandles.insert s.nextFd r }

theorem sameFiles_opened (s : FsState) (r : Path) : SameFiles s (opened s r) := ⟨rfl, rfl, rfl, rfl⟩

theorem sameFiles_dropFile (s : FsState) (f : File) : SameFiles s (Shim.dropFile s f) :=
  ⟨rfl, rfl, rfl, rfl⟩

theorem handlePath_opened (s : FsState) (r : Path) (readable writable append directIo : Bool) :
    Shim.handlePath (opened s r) ⟨s.nextFd, readable, writable, append, directIo⟩ = .ok r := by
  simp [Shim.handlePath, opened]

/-! ## 4. What `read` returns -/

section Read

variable {s : FsState} {p r : Path}

theorem openFile_read (ht : Shim.openTarget s p = .ok r) (now : Duration) :
    Shim.openFile s Shim.readOptions p now
      = if s.fileExists r then (opened s r, .ok ⟨s.nextFd, true, false, false, false⟩)
        else (s, .error (.io .notFound "file not found")) := by
  simp only [Shim.openFile, ht, Shim.readOptions, OpenOptions.default, Bool.false_and,
    Bool.false_eq_true, if_false]
  cases s.fileExists r <;> rfl

/-- A read of all bytes of a file through a handle. -/
theorem readAt_whole {t : FsState} {f : File} {bytes : List UInt8} (hr : f.readable = true)
    (hd : f.directIo = false) (hpath : Shim.handlePath t f = .ok r)
    (hbytes : t.content r = some bytes) (hlen : bytes.length > 0) (ptr : Nat)
    (short : Option Nat) : ∃ n, Shim.readAt t f ptr (List.replicate bytes.length 0) 0
      ⟨false, short, none⟩ = (t, cutBytes bytes short, .ok n) := by
  have hread : t.readFile r bytes.length 0 = some bytes := by
    rw [FsState.readFile_eq_slice, if_neg (by omega), hbytes]
    simp
  have hcopy : copyAt (List.replicate bytes.length (0 : UInt8)) 0 bytes = bytes := by
    simp [copyAt]
  simp only [Shim.readAt, hr, hd, hpath, List.length_replicate, hread, hcopy, Bool.not_true,
    Bool.false_and, Bool.false_eq_true, if_false]
  cases short with
  | none => exact ⟨_, rfl⟩
  | some draw =>
    dsimp only [cutBytes]
    split <;> exact ⟨_, rfl⟩

/-- **What `fs::read` returns** without injected errors: the bytes as the short read cuts them. -/
theorem read_spec (ht : Shim.openTarget s p = .ok r) (ptr : Nat) (short : Option Nat)
    (now : Duration) :
    SameFiles s (Shim.read s p ptr ⟨false, short, none⟩ now).1
      ∧ (Shim.read s p ptr ⟨false, short, none⟩ now).2
        = if s.fileExists r then
            match s.content r with
            | none => .error .overflow
            | some bytes => .ok (cutBytes bytes short)
          else .error (.io .notFound "file not found") := by
  have hopen := openFile_read ht now
  cases hfile : s.fileExists r with
  | false =>
    rw [hfile, if_neg (by decide)] at hopen
    rw [Shim.read, hopen]
    exact ⟨⟨rfl, rfl, rfl, rfl⟩, rfl⟩
  | true =>
    rw [hfile, if_pos rfl] at hopen
    have hpath := handlePath_opened s r true false false false
    have hcontent := (sameFiles_opened s r).content r
    have hlen : Shim.metadataLen (opened s r) ⟨s.nextFd, true, false, false, false⟩
        = match s.content r with
          | none => .error .overflow
          | some bytes => .ok bytes.length := by
      rw [Shim.metadataLen, hpath]
      simp only [FsState.fileLen_eq_length, hcontent]
      cases s.content r <;> rfl
    cases hbytes : s.content r with
    | none =>
      simp only [hbytes] at hlen
      simp only [Shim.read, hopen, hlen]
      exact ⟨(sameFiles_opened s r).trans (sameFiles_dropFile _ _), rfl⟩
    | some bytes =>
      simp only [hbytes] at hlen
      simp only [Shim.read, hopen, hlen]
      split
      · rename_i hpos
        obtain ⟨n, hread⟩ :=
          readAt_whole rfl rfl hpath (hcontent.trans hbytes) hpos ptr short
        rw [hread]
        exact ⟨(sameFiles_opened s r).trans (sameFiles_dropFile _ _), rfl⟩
      · rename_i hzero
        obtain rfl := List.eq_nil_of_length_eq_zero (Nat.eq_zero_of_not_pos hzero)
        refine ⟨(sameFiles_opened s r).trans (sameFiles_dropFile _ _), ?_⟩
        cases short <;> rfl

end Read

/-! ## 5. What `write` leaves -/

/-- The pending data that reaches the bytes stored under `c` from names other than `r`. -/
def FsState.foreignData (s : FsState) (r c : Path) : List PendingOp :=
  (s.dataAt c).filter fun op => !FsState.isDataOf r op

section Write

variable {s : FsState} {p r : Path} {now : Duration}

/-- **A truncation and a write from the start** leave the written bytes, whatever was there. -/
theorem view_overwritten (base : List UInt8) (ops : List PendingOp) (bytes : List UInt8) :
    FsState.view base (ops ++ [.setLen r 0 now, .write r 0 bytes now]) = bytes := by
  have hlen : (FsState.view base (ops ++ [.setLen r 0 now, .write r 0 bytes now])).length
      = bytes.length := by
    simp [FsState.lenStep]
  refine ext_getD hlen fun i hi => ?_
  rw [hlen] at hi
  rw [List.getD_eq_getElem _ _ (by omega)]
  simp [FsState.view, FsState.byteStep, FsState.overlayByte, hi]

theorem view_truncated (base : List UInt8) (ops : List PendingOp) :
    FsState.view base (ops ++ [.setLen r 0 now]) = [] := by
  apply List.eq_nil_of_length_eq_zero
  simp [FsState.lenStep]

/-- What `File::create` leaves: the file is there, and its length is 0 under the name opened. -/
theorem openFile_create {t : FsState} {f : File} (ht : Shim.openTarget s p = .ok r)
    (h : Shim.openFile s Shim.createOptions p now = (t, .ok f)) :
    ∃ u, (u = s ∨ u = s.push (.createFile r now 0o644)) ∧ u.fileExists r = true
      ∧ SameFiles (u.push (.setLen r 0 now)) t ∧ Shim.handlePath t f = .ok r
      ∧ f.writable = true ∧ f.directIo = false := by
  have hfinish : ∀ u : FsState, Shim.finishOpen u Shim.createOptions r now = (t, .ok f) →
      SameFiles (u.push (.setLen r 0 now)) t ∧ Shim.handlePath t f = .ok r
        ∧ f.writable = true ∧ f.directIo = false := by
    intro u hu
    have hu' : (opened (u.setFileLen r 0 now) r, (.ok ⟨u.nextFd, false, true, false, false⟩ :
        Except ShimError File)) = (t, .ok f) := hu
    simp only [Prod.mk.injEq, Except.ok.injEq] at hu'
    obtain ⟨rfl, rfl⟩ := hu'
    exact ⟨⟨rfl, rfl, rfl, rfl⟩, handlePath_opened (u.setFileLen r 0 now) r _ _ _ _, rfl, rfl⟩
  rw [Shim.openFile, ht] at h
  simp only [Shim.createOptions, OpenOptions.default, Bool.false_and, Bool.false_eq_true, if_false,
    Bool.true_or, if_true] at h
  split at h
  · split at h
    · cases h
    · refine ⟨_, Or.inr rfl, ?_, hfinish _ h⟩
      exact FsState.created_fileExists now 0o644
  · rename_i hfile
    exact ⟨s, Or.inl rfl, by simpa using hfile, hfinish s h⟩

/-- A write that succeeds has queued its bytes, and flushed them if it was told to. -/
theorem writeAt_ok {t t' : FsState} {f : File} {offset n : Nat} {buf : List UInt8}
    {ptrAligned ioError flush : Bool} (hpath : Shim.handlePath t f = .ok r)
    (h : Shim.writeAt t f offset buf ptrAligned ioError flush now = (t', .ok n)) :
    t' = if flush then ((t.writeFile r offset buf now).syncFile r).1
      else t.writeFile r offset buf now := by
  rw [Shim.writeAt, hpath] at h
  split at h
  · cases h
  · split at h
    · cases h
    · split at h
      · cases h
      · dsimp only at h
        split at h
        · cases h
        · split at h
          · cases h
          · exact (congrArg Prod.fst h).symm

/-- The bytes under the name that was opened, after the file has been truncated and written. -/
def writtenBytes (s : FsState) (r c : Path) (bytes : List UInt8) (flush : Bool) : List UInt8 :=
  if flush = true ∧ bytes ≠ [] then
    FsState.view (if c = r then bytes else s.storedContent c) (s.foreignData r c)
  else if s.addressesContent r c then bytes
  else s.contentAt c

theorem writtenBytes_kept {c : Path} {bytes : List UInt8} {flush : Bool}
    (h : flush = true → bytes = []) : writtenBytes s r c bytes flush
      = if s.addressesContent r c then bytes else s.contentAt c :=
  if_neg fun hf => hf.2 (h hf.1)

theorem writtenBytes_flushed {c : Path} {bytes : List UInt8} (h : bytes ≠ []) :
    writtenBytes s r c bytes true
      = FsState.view (if c = r then bytes else s.storedContent c) (s.foreignData r c) :=
  if_pos ⟨rfl, h⟩

/-- What the flush of a truncation and a write stores. -/
theorem applied_overwritten (u : FsState) (bytes : List UInt8) :
    ((u.push (.setLen r 0 now)).push (.write r 0 bytes now)).applied r = bytes := by
  have hdata : (((u.push (.setLen r 0 now)).push (.write r 0 bytes now)).pending.filter
      (FsState.isDataOf r)) = u.pending.filter (FsState.isDataOf r)
        ++ [.setLen r 0 now, .write r 0 bytes now] := by
    simp [FsState.push, List.filter_append, FsState.isDataOf]
  rw [FsState.applied, hdata, List.foldl_append, List.foldl_cons, List.foldl_cons, List.foldl_nil,
    FsState.dataStep, FsState.dataStep]
  refine ext_getD (by simp) fun i hi => ?_
  rw [getD_writeAt, getD_resize]
  simp at hi
  simp [hi]

theorem moves_of_isDataOf {op : PendingOp} (h : FsState.isDataOf r op = true) :
    FsState.moves op = false := by
  cases op <;> first | rfl | cases h

/-- One more data operation on `r`, as seen from a stored name. -/
theorem dataAt_push_data (u : FsState) {op : PendingOp} (h : FsState.isDataOf r op = true)
    (c : Path) : (u.push op).dataAt c
      = u.dataAt c ++ if u.addressesContent r c then [op] else [] := by
  rw [FsState.push_dataAt (moves_of_isDataOf h), List.filter_cons, List.filter_nil,
    FsState.isDataAt_of_isDataOf h]

theorem content_push_data (u : FsState) {op : PendingOp} (h : FsState.isDataOf r op = true)
    (q : Path) : (u.push op).content q = (u.resolveContentPath q).map fun c =>
      FsState.view (u.storedContent c)
        (u.dataAt c ++ if u.addressesContent r c then [op] else []) := by
  rw [FsState.content_eq_view, FsState.push_resolveContentPath (moves_of_isDataOf h)]
  simp only [dataAt_push_data u h]
  rfl

theorem isDataOf_setLen (n : Nat) : FsState.isDataOf r (.setLen r n now) = true := by
  simp [FsState.isDataOf]

theorem isDataOf_write (offset : Nat) (bytes : List UInt8) :
    FsState.isDataOf r (.write r offset bytes now) = true := by
  simp [FsState.isDataOf]

/-- A file that is truncated and not written. -/
theorem truncated_content (u : FsState) (flush : Bool) :
    (u.push (.setLen r 0 now)).content r
      = (u.resolveContentPath r).map fun c => writtenBytes u r c [] flush := by
  rw [content_push_data u (isDataOf_setLen 0)]
  refine congrArg (Option.map · _) (funext fun c => ?_)
  rw [writtenBytes_kept fun _ => rfl]
  split
  · exact view_truncated _ _
  · rw [List.append_nil, FsState.contentAt_eq_view]

/-- The data of a name after a truncation and a write. -/
theorem overwritten_dataAt (u : FsState) (bytes : List UInt8) (c : Path) :
    ((u.push (.setLen r 0 now)).push (.write r 0 bytes now)).dataAt c
      = u.dataAt c ++ if u.addressesContent r c then
          [.setLen r 0 now, .write r 0 bytes now] else [] := by
  rw [dataAt_push_data _ (isDataOf_write 0 bytes), dataAt_push_data _ (isDataOf_setLen 0),
    FsState.push_addressesContent (moves_of_isDataOf (isDataOf_setLen 0))]
  split <;> simp

theorem overwritten_resolve (u : FsState) (bytes : List UInt8) (q : Path) :
    ((u.push (.setLen r 0 now)).push (.write r 0 bytes now)).resolveContentPath q
      = u.resolveContentPath q := by
  rw [FsState.push_resolveContentPath (moves_of_isDataOf (isDataOf_write 0 bytes)),
    FsState.push_resolveContentPath (moves_of_isDataOf (isDataOf_setLen 0))]

/-- A file that is truncated and written. -/
theorem overwritten_content (u : FsState) (bytes : List UInt8) :
    ((u.push (.setLen r 0 now)).push (.write r 0 bytes now)).content r
      = (u.resolveContentPath r).map fun c => writtenBytes u r c bytes false := by
  rw [FsState.content_eq_view, overwritten_resolve]
  refine congrArg (Option.map · _) (funext fun c => ?_)
  have hkept : writtenBytes u r c bytes false
      = if u.addressesContent r c then bytes else u.contentAt c :=
    writtenBytes_kept fun h => absurd h (by decide)
  rw [overwritten_dataAt, hkept]
  split
  · exact view_overwritten _ _ _
  · rw [List.append_nil, FsState.contentAt_eq_view]
    rfl

/-- A file that is truncated, written and flushed. -/
theorem flushed_content {u v : FsState} {bytes : List UInt8} (hbytes : bytes ≠ [])
    (hv : SameFiles ((u.push (.setLen r 0 now)).push (.write r 0 bytes now)) v)
    (hfile : v.fileExists r = true) :
    (v.flushFile r).1.content r
      = (u.resolveContentPath r).map fun c => writtenBytes u r c bytes true := by
  rw [FsState.content_eq_view, FsState.flushFile_resolveContentPath hfile, hv.resolve,
    overwritten_resolve]
  refine congrArg (Option.map · _) (funext fun c => ?_)
  rw [FsState.flushFile_storedContent hfile, FsState.flushFile_dataAt hfile, hv.dataAt, hv.applied,
    hv.storedContent, applied_overwritten, overwritten_dataAt, List.filter_append,
    writtenBytes_flushed hbytes]
  have hown : (if u.addressesContent r c then
      [PendingOp.setLen r 0 now, .write r 0 bytes now] else []).filter
        (fun op => !FsState.isDataOf r op) = [] := by
    split <;> simp [FsState.isDataOf]
  rw [hown, List.append_nil]
  rfl

/-- Creating the file changes nothing about where its bytes go. -/
theorem writtenBytes_created (s : FsState) (bytes : List UInt8) (flush : Bool) (c : Path) :
    writtenBytes (s.push (.createFile r now 0o644)) r c bytes flush
      = writtenBytes s r c bytes flush := by
  have hdata := FsState.created_dataAt (s := s) (p := r) now 0o644 c
  have hsame : ∀ x y, (s.push (.createFile r now 0o644)).addressesContent x y
      = s.addressesContent x y := fun x y => FsState.push_addressesContent rfl x y
  simp only [writtenBytes, FsState.foreignData, FsState.contentAt_eq_view, hdata, hsame]
  rfl

/-- **What `fs::write` leaves** under the name it opened. -/
theorem write_spec {s' : FsState} {bytes : List UInt8} {ioError flush : Bool}
    (ht : Shim.openTarget s p = .ok r)
    (h : Shim.write s p bytes ioError flush now = (s', .ok ())) :
    s'.content r = (s.resolveContentPath r).map fun c => writtenBytes s r c bytes flush := by
  rw [Shim.write] at h
  split at h
  · cases h
  rename_i t f hopen
  obtain ⟨u, hu, hfile, hsame, hpath, -, -⟩ := openFile_create ht hopen
  have hcreated : ((u.resolveContentPath r).map fun c => writtenBytes u r c bytes flush)
      = (s.resolveContentPath r).map fun c => writtenBytes s r c bytes flush := by
    rcases hu with rfl | rfl
    · rfl
    · rw [FsState.push_resolveContentPath rfl]
      simp only [writtenBytes_created]
  rw [← hcreated]
  split at h
  · rename_i hempty
    obtain rfl : bytes = [] := by simpa using hempty
    obtain rfl : Shim.dropFile t f = s' := congrArg Prod.fst h
    rw [(hsame.trans (sameFiles_dropFile t f)).content r]
    exact truncated_content u flush
  · rename_i hne
    have hne : bytes ≠ [] := by simpa using hne
    split at h
    · cases h
    rename_i t' n hwrite
    obtain rfl : Shim.dropFile t' f = s' := congrArg Prod.fst h
    have ht' := writeAt_ok hpath hwrite
    rw [FsState.writeFile_of_ne_nil _ _ _ _ hne] at ht'
    rw [(sameFiles_dropFile t' f).content r, ht']
    have hv := hsame.push (.write r 0 bytes now)
    cases flush with
    | false =>
      rw [if_neg (by decide), hv.content r]
      exact overwritten_content u bytes
    | true =>
      rw [if_pos rfl]
      refine flushed_content hne hv ?_
      rw [hv.fileExists, FsState.fileExists, FsState.entryKind_push, FsState.entryKind_push]
      exact hfile

end Write

/-! ## 6. When both are exact -/

section Exact

variable {s s' : FsState} {p src dst : Path} {ptr n : Nat} {short : Option Nat} {flush : Bool}
  {now : Duration}

/-- `read` returns the bytes of the file. -/
def ReadsWhole (s : FsState) (p : Path) (ptr : Nat) (short : Option Nat) (now : Duration) : Prop :=
  ∃ bytes, s.content p = some bytes
    ∧ (Shim.read s p ptr ⟨false, short, none⟩ now).2 = .ok bytes

/-- A copy that has returned `n` has left the bytes of the one file in the other. -/
def CopiesWhole (s s' : FsState) (src dst : Path) (n : Nat) : Prop :=
  ∃ a bytes r, Shim.openTarget s src = .ok a ∧ s.content a = some bytes
    ∧ Shim.openTarget s dst = .ok r ∧ s'.content r = some bytes ∧ n = bytes.length

/-- The condition on a copy of `bytes` to the name `r`. -/
def CopyOk (s : FsState) (bytes : List UInt8) (r : Path) (short : Option Nat) (flush : Bool) :
    Prop :=
  ∃ c, s.resolveContentPath r = some c
    ∧ if flush = true ∧ bytes ≠ [] then
        -- what is stored where `r`'s bytes are looked for, under the data of other names
        FsState.view (if c = r then cutBytes bytes short else s.storedContent c)
          (s.foreignData r c) = bytes
      else if s.addressesContent r c then CutHarmless bytes short
      else s.contentAt c = bytes

theorem reads_whole_iff (hfile : s.fileExists p = true) :
    ReadsWhole s p ptr short now ↔ ∃ bytes, s.content p = some bytes ∧ CutHarmless bytes short := by
  have ht : Shim.openTarget s p = .ok p := by
    have hkind := FsState.fileExists_iff.mp hfile
    rw [Shim.openTarget, if_neg]
    simp [FsState.symlinkExists, hkind]
  obtain ⟨-, hread⟩ := read_spec ht ptr short now
  rw [hfile, if_pos rfl] at hread
  refine exists_congr fun bytes => and_congr_right fun hbytes => ?_
  have hval : (Shim.read s p ptr ⟨false, short, none⟩ now).2 = .ok (cutBytes bytes short) := by
    rw [hread, hbytes]
  rw [hval, ← cutBytes_eq_iff]
  exact ⟨fun h => Except.ok.inj h, congrArg Except.ok⟩

/-- A copy that succeeds has read a file and written what it read. -/
theorem copy_ok (h : Shim.copy s src dst ptr ⟨false, short, none⟩ false flush now = (s', .ok n)) :
    ∃ a bytes t r, Shim.openTarget s src = .ok a ∧ s.content a = some bytes ∧ SameFiles s t
      ∧ Shim.openTarget s dst = .ok r ∧ n = bytes.length
      ∧ Shim.write t dst (cutBytes bytes short) false flush now = (s', .ok ()) := by
  rw [Shim.copy] at h
  split at h
  · cases h
  rename_i t contents hread
  split at h
  · cases h
  rename_i t' hwrite
  obtain ⟨rfl, hn⟩ := Prod.mk.inj h
  cases ha : Shim.openTarget s src with
  | error e =>
    rw [Shim.read, Shim.openFile, ha] at hread
    cases hread
  | ok a =>
    obtain ⟨hsame, hresult⟩ := read_spec ha ptr short now
    rw [hread] at hsame hresult
    split at hresult
    · split at hresult
      · cases hresult
      · rename_i bytes hbytes
        cases hr : Shim.openTarget s dst with
        | error e =>
          rw [Shim.write, Shim.openFile, hsame.openTarget, hr] at hwrite
          cases hwrite
        | ok r =>
          obtain rfl := Except.ok.inj hresult
          refine ⟨a, bytes, t, r, rfl, hbytes, hsame, rfl, ?_, hwrite⟩
          rw [← Except.ok.inj hn, length_cutBytes]
    · cases hresult

theorem copies_whole_iff
    (h : Shim.copy s src dst ptr ⟨false, short, none⟩ false flush now = (s', .ok n)) :
    CopiesWhole s s' src dst n
      ↔ ∃ a bytes r, Shim.openTarget s src = .ok a ∧ s.content a = some bytes
        ∧ Shim.openTarget s dst = .ok r ∧ CopyOk s bytes r short flush := by
  obtain ⟨a, bytes, t, r, ha, hbytes, hsame, hr, hn, hwrite⟩ := copy_ok h
  have hleft : s'.content r = some bytes ↔ CopyOk s bytes r short flush := by
    have hbytes' : ∀ c, writtenBytes t r c (cutBytes bytes short) flush
        = writtenBytes s r c (cutBytes bytes short) flush := by
      intro c
      simp only [writtenBytes, FsState.foreignData, FsState.contentAt_eq_view, hsame.dataAt,
        hsame.storedContent, FsState.addressesContent, FsState.pathRenamedTo_eq, hsame.pending]
    have hne : cutBytes bytes short ≠ [] ↔ bytes ≠ [] := by
      rw [← List.length_pos_iff, ← List.length_pos_iff, length_cutBytes]
    rw [write_spec ((hsame.openTarget dst).trans hr) hwrite, Option.map_eq_some_iff, hsame.resolve]
    refine exists_congr fun c => and_congr_right fun _ => ?_
    rw [hbytes', writtenBytes]
    simp only [hne]
    split
    · exact Iff.rfl
    · split
      · exact cutBytes_eq_iff bytes short
      · exact Iff.rfl
  constructor
  · rintro ⟨a', bytes', r', ha', hb', hr', hc, -⟩
    cases ha.symm.trans ha'
    cases hbytes.symm.trans hb'
    cases hr.symm.trans hr'
    exact ⟨a, bytes, r, ha, hbytes, hr, hleft.mp hc⟩
  · rintro ⟨a', bytes', r', ha', hb', hr', hok⟩
    cases ha.symm.trans ha'
    cases hbytes.symm.trans hb'
    cases hr.symm.trans hr'
    exact ⟨a, bytes, r, ha, hbytes, hr, hleft.mpr hok, hn⟩

end Exact

/-- **When whole-file reads survive a short read.**  In every state and for every short read: `read`
of a file returns its bytes exactly if they can be found and the cut is harmless; and a copy that
succeeds is exact exactly if its condition holds. -/
theorem whole_reads_iff (s : FsState) (ptr : Nat) (short : Option Nat) (now : Duration) :
    (∀ p, s.fileExists p = true → (ReadsWhole s p ptr short now
        ↔ ∃ bytes, s.content p = some bytes ∧ CutHarmless bytes short))
      ∧ ∀ src dst flush s' n,
          Shim.copy s src dst ptr ⟨false, short, none⟩ false flush now = (s', .ok n) →
          (CopiesWhole s s' src dst n ↔ ∃ a bytes r, Shim.openTarget s src = .ok a
            ∧ s.content a = some bytes ∧ Shim.openTarget s dst = .ok r
            ∧ CopyOk s bytes r short flush) :=
  ⟨fun _ hfile => reads_whole_iff hfile, fun _ _ _ _ _ h => copies_whole_iff h⟩

/-- A file `f` with two bytes. -/
def twoBytes (x y : UInt8) : FsState :=
  (FsState.new FsConfig.default).run
    [.createFile (Path.abs ["f"]) 0 0o644, .writeFile (Path.abs ["f"]) 0 [x, y] 0]

/-- A copy of it to `g`, the read of which is cut after one byte. -/
def cutCopy (x y : UInt8) : ShimResult Nat :=
  Shim.copy (twoBytes x y) (Path.abs ["f"]) (Path.abs ["g"]) 512 ⟨false, some 0, none⟩ false false 1

/-- A short read that cuts off a zero, and a copy through it. -/
theorem whole_reads_iff_zero :
    ReadsWhole (twoBytes 7 0) (Path.abs ["f"]) 512 (some 0) 1
      ∧ CopiesWhole (twoBytes 7 0) (cutCopy 7 0).1 (Path.abs ["f"]) (Path.abs ["g"]) 2 := by
  have hcut : CutHarmless [7, 0] (some 0) := (cutBytes_eq_iff [7, 0] (some 0)).mp rfl
  obtain ⟨hread, hcopy⟩ := whole_reads_iff (twoBytes 7 0) 512 (some 0) 1
  refine ⟨(hread _ (by decide)).mpr ⟨[7, 0], by decide, hcut⟩, ?_⟩
  have hok : cutCopy 7 0 = ((cutCopy 7 0).1, .ok 2) := Prod.ext rfl rfl
  refine (hcopy _ (Path.abs ["g"]) false _ 2 hok).mpr
    ⟨Path.abs ["f"], [7, 0], Path.abs ["g"], rfl, by decide, rfl, Path.abs ["g"], by decide, ?_⟩
  rw [if_neg (fun h => absurd h.1 (by decide)), if_pos (by decide)]
  exact hcut

/-- **A short read hands out zeros for the file's bytes**, and the copy keeps them. -/
theorem short_read_loses_bytes :
    (Shim.read (twoBytes 7 8) (Path.abs ["f"]) 512 ⟨false, some 0, none⟩ 1).2 = .ok [7, 0]
      ∧ ¬ ReadsWhole (twoBytes 7 8) (Path.abs ["f"]) 512 (some 0) 1
      ∧ (cutCopy 7 8).2 = .ok 2
      ∧ ¬ CopiesWhole (twoBytes 7 8) (cutCopy 7 8).1 (Path.abs ["f"]) (Path.abs ["g"]) 2 := by
  have hfile : (twoBytes 7 8).content (Path.abs ["f"]) = some [7, 8] := by decide
  have hcut : ¬ CutHarmless [7, 8] (some 0) := fun h =>
    absurd ((cutBytes_eq_iff [7, 8] (some 0)).mpr h) (by decide)
  have hok : cutCopy 7 8 = ((cutCopy 7 8).1, .ok 2) := Prod.ext rfl rfl
  refine ⟨rfl, ?_, rfl, ?_⟩
  · rw [reads_whole_iff (by decide)]
    rintro ⟨bytes, hbytes, hharm⟩
    cases hfile.symm.trans hbytes
    exact hcut hharm
  · rw [copies_whole_iff hok]
    rintro ⟨a, bytes, r, ha, hbytes, hr, c, hc, hok⟩
    cases ha
    cases hr
    cases hfile.symm.trans hbytes
    rw [if_neg (fun h => absurd h.1 (by decide)), if_pos] at hok
    · exact hcut hok
    · have : c = Path.abs ["g"] := Option.some.inj (hc.symm.trans (by decide))
      rw [this]
      decide

end Turmoil.Fs
