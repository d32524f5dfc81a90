/-
# The capacity of the disk

`write_at` refuses a write that makes its file longer, if `used_bytes` and the growth exceed the
capacity.  `used_bytes` is not the bytes in use: it adds, to the stored bytes of every file, how
far each pending operation ends past the stored bytes of its own file (`overhang`), whatever the
operations before it did, and whether or not the file still exists; and `set_len` asks nobody.

So the bytes in use stay below the capacity along a run of calls (`capacity_kept`) if

* each write that makes its file longer finds every file counted in full (`Covered`),
* each `set_len` fits by itself,
* no new name shows bytes that no file had, no rename and no sync moves bytes between files, and
  no crash brings back more than fits;

and a write is refused exactly when it does not fit where what is counted is what is in use
(`Booked`): where no file is counted twice, or counted although it is gone.
-/
import Turmoil.Fs.Space
import Turmoil.Fs.ShimTree

namespace Turmoil.Fs

namespace FsState

/-! ## 1. What is counted -/

/-- How far an operation ends past the stored bytes of its file. -/
def overhang (s : FsState) : PendingOp → Nat
  | .write p offset data _ => offset + data.length - (s.storedContent p).length
  | .setLen p len _ => len - (s.storedContent p).length
  | _ => 0

/-- The bytes counted for a name. -/
def bookedFor (s : FsState) (c : Path) : Nat :=
  (s.storedContent c).length + ((s.pending.filter (isDataOf c)).map s.overhang).sum

/-- Every file is counted in full. -/
def Covered (s : FsState) : Prop := ∀ c ∈ s.liveContents, s.fileLenAt c ≤ s.bookedFor c

/-- What is counted for a name is the length of the file that is stored there, if there is one. -/
structure Booked (s : FsState) : Prop where
  file : ∀ c ∈ s.liveContents, s.fileLenAt c = s.bookedFor c
  other : ∀ c, c ∉ s.liveContents → s.bookedFor c = 0

theorem usedBytes_eq (s : FsState) : s.usedBytes
    = (s.persistedFiles.values.map (·.content.length)).sum + (s.pending.map s.overhang).sum := by
  unfold usedBytes
  generalize (s.persistedFiles.values.map (·.content.length)).sum = total
  induction s.pending generalizing total with
  | nil => rfl
  | cons op log ih =>
    rw [List.foldl_cons, ih, List.map_cons, List.sum_cons, ← Nat.add_assoc]
    congr 1
    cases op with
    | write p offset data time =>
      simp only [overhang, storedLen_eq]
      split <;> omega
    | setLen p len time =>
      simp only [overhang, storedLen_eq]
      split <;> omega
    | _ => rfl

theorem stored_sum (s : FsState) : (s.persistedFiles.values.map (·.content.length)).sum
    = ∑ c ∈ s.persistedFiles.keys.toFinset, (s.storedContent c).length := by
  have hnodup : s.persistedFiles.keys.Nodup := s.persistedFiles.nodup
  rw [List.sum_toFinset _ hnodup, IndexMap.values, IndexMap.keys, List.map_map, List.map_map]
  refine congrArg List.sum (List.map_congr_left fun e he => ?_)
  have hget : s.persistedFiles.get? e.1 = some e.2 := IndexMap.mem_entries.mp he
  simp only [Function.comp, storedContent, hget, Option.map_some, Option.getD_some]

theorem pending_sum (s : FsState) (K : Finset Path) (log : List PendingOp) :
    ∑ c ∈ K, ((log.filter (isDataOf c)).map s.overhang).sum
      = (log.map fun op => ∑ c ∈ K, if isDataOf c op then s.overhang op else 0).sum := by
  induction log with
  | nil => exact Finset.sum_const_zero
  | cons op log ih =>
    rw [List.map_cons, List.sum_cons, ← ih, ← Finset.sum_add_distrib]
    refine Finset.sum_congr rfl fun c _ => ?_
    rw [List.filter_cons]
    split
    · rw [List.map_cons, List.sum_cons]
    · rw [Nat.zero_add]

/-- An operation is counted for its own name, if that is one of them. -/
theorem overhang_sum (s : FsState) (K : Finset Path) {p : Path} {op : PendingOp}
    (hd : isDataOf p op = true) : (∑ c ∈ K, if isDataOf c op then s.overhang op else 0)
      = if p ∈ K then s.overhang op else 0 := by
  have hsame : ∀ c, isDataOf c op = decide (p = c) := by
    intro c
    cases op with
    | write q offset data time =>
      obtain rfl : q = p := of_decide_eq_true hd
      rfl
    | setLen q len time =>
      obtain rfl : q = p := of_decide_eq_true hd
      rfl
    | _ => cases hd
  simp only [hsame, decide_eq_true_eq]
  exact Finset.sum_ite_eq K p _

theorem overhang_of_other {s : FsState} {op : PendingOp} (h : ∀ p, isDataOf p op = false) :
    s.overhang op = 0 := by
  cases op with
  | write p offset data time => exact absurd (h p) (by simp [isDataOf])
  | setLen p len time => exact absurd (h p) (by simp [isDataOf])
  | _ => rfl

/-- What is counted for some names is counted. -/
theorem sum_bookedFor_le (s : FsState) (K : Finset Path) :
    ∑ c ∈ K, s.bookedFor c ≤ s.usedBytes := by
  have hstored : ∑ c ∈ K, (s.storedContent c).length
      ≤ ∑ c ∈ s.persistedFiles.keys.toFinset, (s.storedContent c).length := by
    refine Finset.sum_le_sum_of_ne_zero fun c _ hne => List.mem_toFinset.mpr ?_
    refine IndexMap.mem_keys.mpr (Option.ne_none_iff_exists'.mp fun hnone => hne ?_)
    rw [storedContent, hnone]
    rfl
  have hop : ∀ op, (∑ c ∈ K, if isDataOf c op then s.overhang op else 0) ≤ s.overhang op := by
    intro op
    by_cases hd : ∃ p, isDataOf p op = true
    · obtain ⟨p, hp⟩ := hd
      rw [s.overhang_sum K hp]
      split
      · exact Nat.le_refl _
      · exact Nat.zero_le _
    · rw [Finset.sum_eq_zero fun c _ => if_neg fun h => hd ⟨c, h⟩]
      exact Nat.zero_le _
  rw [usedBytes_eq, stored_sum]
  show (∑ c ∈ K, ((s.storedContent c).length + _)) ≤ _
  rw [Finset.sum_add_distrib, pending_sum]
  exact Nat.add_le_add hstored (List.sum_le_sum fun op _ => hop op)

/-- If nothing is counted for any other name, it is all that is counted. -/
theorem sum_bookedFor_eq (s : FsState) (K : Finset Path) (h : ∀ c, c ∉ K → s.bookedFor c = 0) :
    ∑ c ∈ K, s.bookedFor c = s.usedBytes := by
  refine Nat.le_antisymm (s.sum_bookedFor_le K) ?_
  have hstored : ∑ c ∈ s.persistedFiles.keys.toFinset, (s.storedContent c).length
      ≤ ∑ c ∈ K, (s.storedContent c).length := by
    refine Finset.sum_le_sum_of_ne_zero fun c _ hne => ?_
    by_contra hno
    exact hne (Nat.eq_zero_of_add_eq_zero_right (h c hno))
  have hop : ∀ op ∈ s.pending,
      s.overhang op ≤ ∑ c ∈ K, if isDataOf c op then s.overhang op else 0 := by
    intro op hmem
    by_cases hd : ∃ p, isDataOf p op = true
    · obtain ⟨p, hp⟩ := hd
      rw [s.overhang_sum K hp]
      split
      · exact Nat.le_refl _
      · rename_i hno
        have hsum := Nat.eq_zero_of_add_eq_zero_left (h p hno)
        have hin : s.overhang op ∈ (s.pending.filter (isDataOf p)).map s.overhang :=
          List.mem_map_of_mem (List.mem_filter.mpr ⟨hmem, hp⟩)
        exact hsum ▸ List.single_le_sum (fun _ _ => Nat.zero_le _) _ hin
    · rw [overhang_of_other fun p => Bool.eq_false_iff.mpr fun h => hd ⟨p, h⟩]
      exact Nat.zero_le _
  rw [usedBytes_eq, stored_sum]
  show _ ≤ ∑ c ∈ K, ((s.storedContent c).length + _)
  rw [Finset.sum_add_distrib, pending_sum]
  exact Nat.add_le_add hstored (List.sum_le_sum hop)

/-- **Files counted in full** take no more than what is counted. -/
theorem Covered.spaceUsed_le {s : FsState} (h : s.Covered) : s.spaceUsed ≤ s.usedBytes :=
  Nat.le_trans (Finset.sum_le_sum h) (s.sum_bookedFor_le _)

/-- **What is counted is what is in use.** -/
theorem Booked.spaceUsed_eq {s : FsState} (h : s.Booked) : s.spaceUsed = s.usedBytes := by
  rw [← s.sum_bookedFor_eq s.liveContents h.other]
  exact Finset.sum_congr rfl h.file

/-! ## 2. The check -/

/-- **When the check lets bytes through.** -/
theorem checkSpace_cases (s : FsState) {cap : Nat} (hcap : s.capacity = some cap)
    (hmax : cap < 2 ^ 64 - 1) (n : Nat) :
    (s.checkSpace n = .ok () ∧ s.usedBytes + n ≤ cap)
      ∨ (s.checkSpace n = .error .noSpace ∧ cap < s.usedBytes + n) := by
  simp only [checkSpace, hcap]
  split
  · exact Or.inr ⟨rfl, by omega⟩
  · exact Or.inl ⟨rfl, by omega⟩

end FsState

namespace Shim

/-- Is a write of `buf` at `offset` one that a handle may make: aligned, if it is direct? -/
def Aligned (s : FsState) (f : File) (offset : Nat) (buf : List UInt8) (ptrAligned : Bool) : Prop :=
  f.directIo = true →
    ptrAligned = true ∧ offset % s.directIoAlignment = 0 ∧ buf.length % s.directIoAlignment = 0

/-- **A write is refused for lack of space**, or it is made, if nothing else is wrong with it. -/
theorem writeAt_cases {s : FsState} {cap : Nat} (hcap : s.capacity = some cap)
    (hmax : cap < 2 ^ 64 - 1) {f : File} {path : Path} {len offset : Nat} {buf : List UInt8}
    {ptrAligned : Bool} (hw : f.writable = true) (hal : Aligned s f offset buf ptrAligned)
    (hp : handlePath s f = .ok path) (hlen : s.fileLen path = some len) (flush : Bool)
    (now : Duration) :
    ((writeAt s f offset buf ptrAligned false flush now).2 = .error FsError.noSpace.other
        ∧ 0 < offset + buf.length - len ∧ cap < s.usedBytes + (offset + buf.length - len))
      ∨ ((writeAt s f offset buf ptrAligned false flush now).2 = .ok buf.length
        ∧ (0 < offset + buf.length - len → s.usedBytes + (offset + buf.length - len) ≤ cap)) := by
  have hnot : (f.directIo && (!ptrAligned || offset % s.directIoAlignment != 0
      || buf.length % s.directIoAlignment != 0)) = false := by
    cases hd : f.directIo with
    | false => rfl
    | true =>
      obtain ⟨h1, h2, h3⟩ := hal hd
      simp [h1, h2, h3]
  by_cases hgrow : offset + buf.length - len > 0
  · rcases s.checkSpace_cases hcap hmax (offset + buf.length - len) with ⟨h, hle⟩ | ⟨h, hlt⟩
    · exact Or.inr ⟨by simp [writeAt, hw, hnot, hp, hlen, hgrow, h], fun _ => hle⟩
    · exact Or.inl ⟨by simp [writeAt, hw, hnot, hp, hlen, hgrow, h], hgrow, hlt⟩
  · exact Or.inr ⟨by simp [writeAt, hw, hnot, hp, hlen, hgrow], fun h => absurd h hgrow⟩

/-- **When a write is refused for lack of space.** -/
theorem writeAt_noSpace_iff {s : FsState} {cap : Nat} (hcap : s.capacity = some cap)
    (hmax : cap < 2 ^ 64 - 1) {f : File} {path : Path} {len offset : Nat} {buf : List UInt8}
    {ptrAligned : Bool} (hw : f.writable = true) (hal : Aligned s f offset buf ptrAligned)
    (hp : handlePath s f = .ok path) (hlen : s.fileLen path = some len) (flush : Bool)
    (now : Duration) :
    (writeAt s f offset buf ptrAligned false flush now).2 = .error FsError.noSpace.other
      ↔ 0 < offset + buf.length - len ∧ cap < s.usedBytes + (offset + buf.length - len) := by
  rcases writeAt_cases hcap hmax hw hal hp hlen flush now with ⟨h, hand⟩ | ⟨h, hle⟩
  · exact ⟨fun _ => hand, fun _ => h⟩
  · rw [h]
    exact ⟨nofun, fun hand => absurd hand.2 (Nat.not_lt.mpr (hle hand.1))⟩

end Shim

/-! ## 3. What each call takes -/

namespace FsState

/-- From `s` to `t`, `n` more bytes came into use at most. -/
structure Takes (n : Nat) (s t : FsState) : Prop where
  capacity : t.capacity = s.capacity
  space : t.spaceUsed ≤ s.spaceUsed + n

theorem Takes.refl (s : FsState) : Takes 0 s s := ⟨rfl, Nat.le_refl _⟩

theorem Takes.trans {m n : Nat} {s t u : FsState} (h : Takes m s t) (h' : Takes n t u) :
    Takes (m + n) s u := by
  refine ⟨h'.capacity.trans h.capacity, Nat.le_trans h'.space ?_⟩
  rw [← Nat.add_assoc]
  exact Nat.add_le_add_right h.space n

/-- What touches neither the stored bytes nor the queue takes nothing. -/
theorem Takes.of_same {s t : FsState} (hcap : t.capacity = s.capacity)
    (hf : t.persistedFiles = s.persistedFiles) (hd : t.persistedDirs = s.persistedDirs)
    (hl : t.persistedSymlinks = s.persistedSymlinks) (hp : t.pending = s.pending) :
    Takes 0 s t := ⟨hcap, Nat.le_of_eq (spaceUsed_congr hf hd hl hp)⟩

section Calls

variable (s : FsState)

/-- A queued operation on names takes nothing. -/
theorem takes_push {op : PendingOp} (hop : moves op = false) (hname : ∀ c, s.isDataAt c op = false)
    (hnew : ∀ q time mode, op = .createFile q time mode → s.ShowsNothingNew q) :
    Takes 0 s (s.push op) := ⟨rfl, spaceUsed_push hop hname hnew⟩

theorem takes_mkdir (p : Path) (time : Duration) (mode : Nat) :
    Takes 0 s (s.mkdirWithMode p time mode).1 := by
  rcases s.mkdir_cases p time mode with ⟨e, he⟩ | ⟨he, -⟩ <;> rw [he]
  · exact Takes.refl s
  · exact s.takes_push rfl (fun _ => rfl) fun _ _ _ h => by cases h

theorem takes_symlink (p target : Path) (time : Duration) :
    Takes 0 s (s.createSymlink p target time).1 := by
  rcases s.createSymlink_cases p target time with ⟨e, he⟩ | ⟨he, -⟩ <;> rw [he]
  · exact Takes.refl s
  · exact s.takes_push rfl (fun _ => rfl) fun _ _ _ h => by cases h

theorem takes_rmdir (p : Path) : Takes 0 s (s.rmdir p).1 := by
  rcases s.rmdir_cases p with ⟨e, he⟩ | ⟨he, -⟩ <;> rw [he]
  · exact Takes.refl s
  · exact s.takes_push rfl (fun _ => rfl) fun _ _ _ h => by cases h

theorem takes_unlink (p : Path) : Takes 0 s (s.unlink p).1 := by
  rcases s.unlink_cases p with ⟨e, he⟩ | ⟨he, -⟩ <;> rw [he]
  · exact Takes.refl s
  · have hpush : Takes 0 s (s.push (.removeFile p)) :=
      s.takes_push rfl (fun _ => rfl) fun _ _ _ h => by cases h
    exact hpush.trans (.of_same (by rfl) (by rfl) (by rfl) (by rfl) (by rfl))

theorem takes_setPermissions (p : Path) (mode : Nat) (time : Duration) :
    Takes 0 s (s.setPermissions p mode time).1 := by
  rcases s.setPermissions_cases p mode time with ⟨e, he⟩ | he <;> rw [he]
  · exact Takes.refl s
  · exact s.takes_push rfl (fun _ => rfl) fun _ _ _ h => by cases h

theorem takes_createFile {p : Path} (h : s.ShowsNothingNew p) (time : Duration) (mode : Nat) :
    Takes 0 s (s.createFileWithMode p time mode) := by
  refine s.takes_push rfl (fun _ => rfl) fun q _ _ hq => ?_
  cases hq
  exact h

theorem takes_hardLink {p target : Path} {time : Duration}
    (h : s.resolveHardlinkTarget p = none ∨ s.ShowsNothingNew p) :
    Takes 0 s (s.createHardLink p target time).1 := by
  rcases s.createHardLink_cases p target time with ⟨e, he⟩ | ⟨he, -, -, htarget⟩ <;> rw [he]
  · exact Takes.refl s
  · exact ⟨rfl, spaceUsed_push_link htarget h⟩

theorem takes_rename {a b : Path} (h : (s.rename a b).2.toBool = true → s.RenameKeeps a b) :
    Takes 0 s (s.rename a b).1 := by
  rcases s.rename_cases a b with ⟨e, he⟩ | ⟨he, -⟩ <;> rw [he] at h ⊢
  · exact Takes.refl s
  · exact ⟨rfl, (h rfl).spaceUsed_le⟩

/-- The condition on a sync of a file. -/
def FlushKeeps (p : Path) : Prop := s.Coherent ∧ (s.fileExists p = true → s.FileSyncOk p)

theorem takes_flushFile {p : Path} (h : s.FlushKeeps p) : Takes 0 s (s.flushFile p).1 := by
  refine ⟨?_, FileSyncOk.spaceUsed_le h.1 h.2⟩
  cases hex : s.fileExists p with
  | false => rw [flushFile_err hex]
  | true =>
    obtain ⟨files, f, heq, -⟩ := flushFile_spec hex
    rw [heq]

theorem takes_syncDir {d : Path} (hc : s.Coherent) (h : s.dirExists d = true → s.DirSyncOk d)
    (time : Duration) : Takes 0 s (s.syncDir d time).1 := by
  refine ⟨?_, DirSyncOk.spaceUsed_le hc h time⟩
  cases hex : s.dirExists d with
  | false => rw [syncDir_err hex]
  | true =>
    obtain ⟨dirs, heq, -⟩ := syncDir_spec hex time
    obtain ⟨files, d', links, hfold⟩ := foldl_applyOp_eq (s.dirFlush d) s
    rw [heq, hfold]

/-- How much longer the file at `p` gets, if it has to reach `size`. -/
def growth (p : Path) (size : Nat) : Nat := ((s.fileLen p).map fun len => size - len).getD 0

/-- The operation makes no file longer than `size` but the one that is stored for `p`. -/
def ReachesOwn (p : Path) (size : Nat) : Prop :=
  ∀ c ∈ s.liveContents, s.addressesContent p c = true →
    s.resolveContentPath p = some c ∨ size ≤ s.fileLenAt c

theorem takes_data {p : Path} {op : PendingOp} (hd : isDataOf p op = true) {size : Nat}
    (hsize : ∀ n, lenStep n op ≤ max n size) (h : s.ReachesOwn p size) :
    Takes (s.growth p size) s (s.push op) := by
  have hop : moves op = false := by
    cases op <;> first | rfl | cases hd
  refine ⟨rfl, ?_⟩
  cases hres : s.resolveContentPath p with
  | none =>
    refine Nat.le_trans (spaceUsed_push_data hop hd p 0 fun c hc ha => ?_) (Nat.le_add_right _ _)
    have hle := (h c hc ha).resolve_left (by rw [hres]; exact nofun)
    have hstep := hsize (s.fileLenAt c)
    omega
  | some c₀ =>
    have hg : s.growth p size = size - s.fileLenAt c₀ := by
      rw [growth, fileLen, hres]
      rfl
    rw [hg]
    refine spaceUsed_push_data hop hd c₀ _ fun c hc ha => ?_
    have hstep := hsize (s.fileLenAt c)
    rcases h c hc ha with hown | hle
    · obtain rfl : c₀ = c := Option.some.inj (hres.symm.trans hown)
      rw [if_pos rfl]
      omega
    · omega

theorem takes_setFileLen {p : Path} {len : Nat} (h : s.ReachesOwn p len) (time : Duration) :
    Takes (s.growth p len) s (s.setFileLen p len time) := by
  have hd : isDataOf p (.setLen p len time) = true := decide_eq_true rfl
  exact (s.takes_data hd (fun n => Nat.le_max_right n len) h).trans
    (.of_same (by rfl) (by rfl) (by rfl) (by rfl) (by rfl))

theorem takes_writeFile {p : Path} {offset : Nat} {data : List UInt8}
    (h : s.ReachesOwn p (offset + data.length)) (time : Duration) :
    Takes (s.growth p (offset + data.length)) s (s.writeFile p offset data time) := by
  unfold writeFile
  split
  · exact ⟨rfl, Nat.le_add_right _ _⟩
  · have hd : isDataOf p (.write p offset data time) = true := decide_eq_true rfl
    exact s.takes_data hd (fun n => Nat.le_refl _) h

end Calls

end FsState

namespace Shim

open FsState

theorem takes_createDirAll (s : FsState) (path : Path) (now : Duration) :
    Takes 0 s (createDirAll s path now).1 :=
  @createEach_keeps (Takes 0 s) now _ s
    (fun t dir _ ht => ht.trans (t.takes_mkdir dir now 0o755)) (Takes.refl s)

theorem takes_removeDirAll (order : HashOrder) (s : FsState) (path : Path) :
    Takes 0 s (removeDirAll order s path).1 :=
  removeDirAll_keeps (fun t p ht => ht.trans (t.takes_unlink p))
    (fun t p ht => ht.trans (t.takes_rmdir p)) order (Takes.refl s) path

theorem takes_finishOpen (s : FsState) (o : OpenOptions) (r : Path) (now : Duration) :
    Takes 0 s (finishOpen s o r now).1 := by
  have hlen : Takes 0 s (if o.truncate && o.write then s.setFileLen r 0 now else s) := by
    split
    · have hgrow : s.growth r 0 = 0 := by
        rw [growth]
        cases s.fileLen r with
        | none => rfl
        | some len => exact Nat.zero_sub len
      have hset : Takes (s.growth r 0) s (s.setFileLen r 0 now) :=
        s.takes_setFileLen (fun _ _ _ => Or.inr (Nat.zero_le _)) now
      rwa [hgrow] at hset
    · exact Takes.refl s
  simp only [finishOpen, allocFd]
  split <;> exact hlen.trans (.of_same (by rfl) (by rfl) (by rfl) (by rfl) (by rfl))

/-- The condition on `open`: a file it creates shows nothing new. -/
def OpensEmpty (s : FsState) (o : OpenOptions) (path : Path) : Prop :=
  ∀ r, openTarget s path = .ok r → s.fileExists r = false → (o.create || o.createNew) = true →
    s.ShowsNothingNew r

theorem takes_openFile {s : FsState} {o : OpenOptions} {path : Path} (h : OpensEmpty s o path)
    (now : Duration) : Takes 0 s (openFile s o path now).1 := by
  cases ht : openTarget s path with
  | error e =>
    simp only [openFile, ht]
    exact Takes.refl s
  | ok r =>
    simp only [openFile, ht]
    split
    · exact Takes.refl s
    · split
      · rename_i hno
        split
        · rename_i hc
          split
          · exact Takes.refl s
          · have hnew := h r ht (by simpa using hno) hc
            exact (s.takes_createFile hnew now o.mode).trans (takes_finishOpen _ o r now)
        · exact Takes.refl s
      · exact takes_finishOpen s o r now

theorem takes_tryClone (s : FsState) (f : File) : Takes 0 s (tryClone s f).1 := by
  unfold tryClone
  cases handlePath s f with
  | error e => exact Takes.refl s
  | ok path =>
    simp only [allocFd]
    split <;> exact .of_same (by rfl) (by rfl) (by rfl) (by rfl) (by rfl)

end Shim

/-! ## 4. Runs of calls -/

/-- A call that can change what the disk holds, or who has a handle on it. -/
inductive DiskOp where
  | call (op : ShimOp)
  | setLen (file : File) (size : Nat) (flush : Bool) (now : Duration)
  | syncData (file : File)
  | setPermissions (path : Path) (mode : Nat) (now : Duration)
  | tryClone (file : File)
  | dropFile (file : File)

namespace FsState

/-- The state after a call. -/
def disk (s : FsState) : DiskOp → FsState
  | .call op => s.shim op
  | .setLen file size flush now => (Shim.setLen s file size flush now).1
  | .syncData file => (Shim.syncData s file).1
  | .setPermissions path mode now => (Shim.setPermissions s path mode now).1
  | .tryClone file => (Shim.tryClone s file).1
  | .dropFile file => Shim.dropFile s file

/-- The condition on a write of bytes at `p` up to `size`. -/
structure WriteKeeps (s : FsState) (p : Path) (size : Nat) : Prop where
  /-- If the file gets longer, the files in use are counted in full. -/
  counted : 0 < s.growth p size → s.Covered
  own : s.ReachesOwn p size

/-- The condition on a call. -/
def DiskOk (cap : Nat) (s : FsState) : DiskOp → Prop
  | .call (.openFile options path _) => Shim.OpensEmpty s options path
  | .call (.writeAt file offset buf _ _ flush now) => ∀ path, Shim.handlePath s file = .ok path →
      s.WriteKeeps path (offset + buf.length)
        ∧ (flush = true → (s.writeFile path offset buf now).FlushKeeps path)
  | .call (.rename src dst) => (s.rename src dst).2.toBool = true → s.RenameKeeps src dst
  | .call (.hardLink _ link _) => s.resolveHardlinkTarget link = none ∨ s.ShowsNothingNew link
  | .call (.syncAll file) => ∀ path, Shim.handlePath s file = .ok path → s.FlushKeeps path
  | .call (.syncDir path _) => s.Coherent ∧ (s.dirExists path = true → s.DirSyncOk path)
  | .call (.crash _) => s.crashSpace ≤ cap
  | .setLen file size flush now => ∀ path, Shim.handlePath s file = .ok path →
      s.spaceUsed + s.growth path size ≤ cap ∧ s.ReachesOwn path size
        ∧ (flush = true → (s.setFileLen path size now).FlushKeeps path)
  | .syncData file => ∀ path, Shim.handlePath s file = .ok path → s.FlushKeeps path
  | _ => True

/-- The disk has a capacity, and holds no more. -/
structure Within (cap : Nat) (s : FsState) : Prop where
  capacity : s.capacity = some cap
  space : s.spaceUsed ≤ cap

theorem Within.takes {cap : Nat} {s t : FsState} (h : s.Within cap) {n : Nat} (ht : Takes n s t)
    (hn : s.spaceUsed + n ≤ cap) : t.Within cap :=
  ⟨ht.capacity.trans h.capacity, Nat.le_trans ht.space hn⟩

theorem Within.free {cap : Nat} {s t : FsState} (h : s.Within cap) (ht : Takes 0 s t) :
    t.Within cap := h.takes ht h.space

theorem crash_capacity (s : FsState) (surviving : Nat → Nat) :
    (s.crash surviving).capacity = s.capacity := by
  unfold crash
  cases s.blockSize with
  | none => rfl
  | some b => exact applyTornWrites_keeps FsState.capacity (fun _ _ _ _ _ => rfl) s b surviving

theorem Within.crash {cap : Nat} {s : FsState} (h : s.Within cap) (hfit : s.crashSpace ≤ cap)
    (surviving : Nat → Nat) : (s.crash surviving).Within cap :=
  ⟨(s.crash_capacity surviving).trans h.capacity,
    Nat.le_trans (s.crash_spaceUsed_le surviving) hfit⟩

/-- After a queued data operation, a flush. -/
theorem Within.flush {cap : Nat} {s : FsState} (h : s.Within cap) {flush : Bool} {p : Path}
    (hok : flush = true → s.FlushKeeps p) : (if flush then (s.syncFile p).1 else s).Within cap := by
  split
  · rename_i hflush
    exact h.free (s.takes_flushFile (hok hflush))
  · exact h

/-- **A write that is let through fits.** -/
theorem Within.writeAt {cap : Nat} (hmax : cap < 2 ^ 64 - 1) {s : FsState} (h : s.Within cap)
    {f : File} {offset : Nat} {buf : List UInt8} {ptrAligned ioError flush : Bool} {now : Duration}
    (hok : ∀ path, Shim.handlePath s f = .ok path → s.WriteKeeps path (offset + buf.length)
      ∧ (flush = true → (s.writeFile path offset buf now).FlushKeeps path)) :
    (Shim.writeAt s f offset buf ptrAligned ioError flush now).1.Within cap := by
  unfold Shim.writeAt
  split
  · exact h
  split
  · exact h
  split
  · exact h
  cases hp : Shim.handlePath s f with
  | error e => exact h
  | ok path =>
    obtain ⟨hkeeps, hflush⟩ := hok path hp
    dsimp only
    cases hlen : s.fileLen path with
    | none => exact h
    | some len =>
      have hgrowth : s.growth path (offset + buf.length) = offset + buf.length - len := by
        rw [growth, hlen]
        rfl
      have htakes := s.takes_writeFile hkeeps.own now
      dsimp only
      split
      · exact h
      · rename_i hres
        refine Within.flush (h.takes htakes ?_) hflush
        rw [hgrowth]
        split at hres
        · rename_i hgrow
          rcases s.checkSpace_cases h.capacity hmax (offset + buf.length - len) with
            ⟨-, hle⟩ | ⟨herr, -⟩
          · -- the check counts no less than what is in use
            have hcovered := (hkeeps.counted (by rw [hgrowth]; exact hgrow)).spaceUsed_le
            omega
          · rw [herr] at hres
            cases hres
        · have hspace := h.space
          omega

theorem Within.setLen {cap : Nat} {s : FsState} (h : s.Within cap) {f : File} {size : Nat}
    {flush : Bool} {now : Duration}
    (hok : ∀ path, Shim.handlePath s f = .ok path → s.spaceUsed + s.growth path size ≤ cap
      ∧ s.ReachesOwn path size ∧ (flush = true → (s.setFileLen path size now).FlushKeeps path)) :
    (Shim.setLen s f size flush now).1.Within cap := by
  unfold Shim.setLen
  split
  · exact h
  · cases hp : Shim.handlePath s f with
    | error e => exact h
    | ok path =>
      obtain ⟨hfit, hown, hflush⟩ := hok path hp
      exact Within.flush (h.takes (s.takes_setFileLen hown now) hfit) hflush

/-- A sync through a handle. -/
theorem Within.handleSync {cap : Nat} {s : FsState} (h : s.Within cap) {f : File}
    (hok : ∀ path, Shim.handlePath s f = .ok path → s.FlushKeeps path) :
    (Shim.syncAll s f).1.Within cap := by
  unfold Shim.syncAll
  cases hp : Shim.handlePath s f with
  | error e => exact h
  | ok path =>
    simp only [FsResult.mapErr_fst]
    exact h.free (s.takes_flushFile (hok path hp))

/-- **One call keeps the disk within its capacity.** -/
theorem Within.disk {cap : Nat} (hmax : cap < 2 ^ 64 - 1) {s : FsState} (h : s.Within cap)
    {op : DiskOp} (hok : s.DiskOk cap op) : (s.disk op).Within cap := by
  cases op with
  | call op =>
    cases op with
    | createDir path now =>
      simp only [FsState.disk, shim, Shim.createDir, FsResult.mapErr_fst]
      exact h.free (s.takes_mkdir path now 0o755)
    | createDirAll path now => exact h.free (Shim.takes_createDirAll s path now)
    | openFile options path now => exact h.free (Shim.takes_openFile hok now)
    | writeAt file offset buf ptrAligned ioError flush now => exact h.writeAt hmax hok
    | rename src dst =>
      simp only [FsState.disk, shim, Shim.rename, FsResult.mapErr_fst]
      exact h.free (s.takes_rename hok)
    | removeFile path =>
      simp only [FsState.disk, shim, Shim.removeFile, FsResult.mapErr_fst]
      exact h.free (s.takes_unlink path)
    | removeDir path =>
      simp only [FsState.disk, shim, Shim.removeDir, FsResult.mapErr_fst]
      exact h.free (s.takes_rmdir path)
    | removeDirAll order path => exact h.free (Shim.takes_removeDirAll order s path)
    | symlink original link now =>
      simp only [FsState.disk, shim, Shim.symlink, FsResult.mapErr_fst]
      exact h.free (s.takes_symlink link original now)
    | hardLink original link now =>
      simp only [FsState.disk, shim, Shim.hardLink, FsResult.mapErr_fst]
      exact h.free (s.takes_hardLink hok)
    | syncAll file => exact h.handleSync hok
    | syncDir path now =>
      simp only [FsState.disk, shim, Shim.syncDir, FsResult.mapErr_fst]
      exact h.free (s.takes_syncDir hok.1 hok.2 now)
    | crash surviving => exact h.crash hok surviving
  | setLen file size flush now => exact h.setLen hok
  | syncData file => exact h.handleSync hok
  | setPermissions path mode now =>
    simp only [FsState.disk, Shim.setPermissions, FsResult.mapErr_fst]
    exact h.free (s.takes_setPermissions path mode now)
  | tryClone file => exact h.free (Shim.takes_tryClone s file)
  | dropFile file =>
    exact h.free (.of_same (by rfl) (by rfl) (by rfl) (by rfl) (by rfl))

/-- The state after a run of calls. -/
def diskRun (s : FsState) (ops : List DiskOp) : FsState := runAll disk s ops

/-- The disk refuses the writes that do not fit, and no others. -/
def RefusesExactly (cap : Nat) (s : FsState) : Prop :=
  ∀ f path len offset buf ptrAligned flush now, f.writable = true → Shim.handlePath s f = .ok path →
    s.fileLen path = some len → buf ≠ [] → Shim.Aligned s f offset buf ptrAligned →
    ((Shim.writeAt s f offset buf ptrAligned false flush now).2 = .error FsError.noSpace.other
      ↔ cap < s.spaceUsed + (offset + buf.length - len))

theorem Within.refusesExactly {cap : Nat} (hmax : cap < 2 ^ 64 - 1) {s : FsState}
    (h : s.Within cap) (hb : s.Booked) : s.RefusesExactly cap := by
  intro f path len offset buf ptrAligned flush now hw hp hlen _ hal
  rw [Shim.writeAt_noSpace_iff h.capacity hmax hw hal hp hlen, hb.spaceUsed_eq]
  have hspace := hb.spaceUsed_eq ▸ h.space
  omega

theorem within_new {config : FsConfig} {cap : Nat} (hcap : config.capacity = some cap) :
    (FsState.new config).Within cap := ⟨hcap, Nat.zero_le cap⟩

/-- **The disk stays within its capacity** after every run of calls that are `DiskOk`, and where
what is counted is what is in use, it refuses exactly the writes that do not fit. -/
theorem capacity_kept (config : FsConfig) {cap : Nat} (hcap : config.capacity = some cap)
    (hmax : cap < 2 ^ 64 - 1) (ops : List DiskOp)
    (hops : Turmoil.Along FsState.disk (DiskOk cap) (FsState.new config) ops) :
    ((FsState.new config).diskRun ops).spaceUsed ≤ cap
      ∧ (((FsState.new config).diskRun ops).Booked →
        ((FsState.new config).diskRun ops).RefusesExactly cap) := by
  have hwithin : ((FsState.new config).diskRun ops).Within cap :=
    Turmoil.Along.invariant (fun _ _ h hop => h.disk hmax hop) (within_new hcap) hops
  exact ⟨hwithin.space, hwithin.refusesExactly hmax⟩

/-- A handle on a fresh file. -/
def freshFile : File := ⟨simFdBase, false, true, false, false⟩

def smallDisk (cap : Nat) : FsConfig := { FsConfig.default with capacity := some cap }

/-- A file is made, and its handle. -/
def openFresh : DiskOp :=
  .call (.openFile { OpenOptions.default with write := true, create := true } (Path.abs ["f"]) 0)

/-- One byte is written. -/
def writeByte (offset : Nat) : DiskOp :=
  .call (.writeAt freshFile offset [1] true false false 0)

/-- After one write the file is counted as long as it is, and nothing else is counted. -/
theorem booked_writeByte :
    ((FsState.new (smallDisk 3)).diskRun [openFresh, writeByte 0]).Booked where
  file := by decide
  other c hc := by
    have hc' : Path.abs ["f"] ≠ c := fun e => by
      subst e
      exact absurd hc (by decide)
    show 0 + (([.createFile (Path.abs ["f"]) 0 0o644, .write (Path.abs ["f"]) 0 [1] 0].filter
      (isDataOf c)).map _).sum = 0
    rw [List.filter_cons, List.filter_cons]
    simp [isDataOf, hc']

/-- A byte, and a file a little longer than that. -/
theorem capacity_kept_small :
    Turmoil.Along FsState.disk (DiskOk 3) (FsState.new (smallDisk 3))
        [openFresh, writeByte 0, .setLen freshFile 2 false 0]
      ∧ ((FsState.new (smallDisk 3)).diskRun
        [openFresh, writeByte 0, .setLen freshFile 2 false 0]).spaceUsed ≤ 3
      ∧ ((FsState.new (smallDisk 3)).diskRun [openFresh, writeByte 0]).RefusesExactly 3 := by
  have hops : Turmoil.Along FsState.disk (DiskOk 3) (FsState.new (smallDisk 3))
      [openFresh, writeByte 0, .setLen freshFile 2 false 0] := by
    refine ⟨fun _ _ _ _ _ _ => Or.inr rfl, fun path hp => ?_, fun path hp => ?_, trivial⟩
    · obtain rfl : Path.abs ["f"] = path := Except.ok.inj hp
      exact ⟨⟨fun _ => by unfold Covered; decide, by unfold ReachesOwn; decide⟩, nofun⟩
    · obtain rfl : Path.abs ["f"] = path := Except.ok.inj hp
      exact ⟨by decide, by unfold ReachesOwn; decide, nofun⟩
  have hops' : Turmoil.Along FsState.disk (DiskOk 3) (FsState.new (smallDisk 3))
      [openFresh, writeByte 0] := ⟨hops.1, hops.2.1, trivial⟩
  exact ⟨hops, (capacity_kept (smallDisk 3) rfl (by decide) _ hops).1,
    (capacity_kept (smallDisk 3) rfl (by decide) _ hops').2 booked_writeByte⟩

/-- Two bytes are counted as three, so the third that fits is refused; and `set_len` goes beyond
the capacity. -/
theorem refused_with_room_left :
    ¬ ((FsState.new (smallDisk 3)).diskRun [openFresh, writeByte 0, writeByte 1]).RefusesExactly 3
      ∧ 3 < ((FsState.new (smallDisk 3)).diskRun
        [openFresh, .setLen freshFile 4 false 0]).spaceUsed := by
  refine ⟨fun h => ?_, by decide⟩
  have hiff := h freshFile (Path.abs ["f"]) 2 2 [1] true false 0 rfl (by decide) (by decide)
    nofun nofun
  exact absurd (hiff.mp (by decide)) (by decide)

end FsState

end Turmoil.Fs
