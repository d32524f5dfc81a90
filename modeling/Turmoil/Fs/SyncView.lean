/-
# When syncing is invisible

A sync should only change what survives a crash, never what the running program sees.  The
code does not achieve this: bytes are recorded under the name a file had when they were written,
and a sync that makes a rename durable leaves them behind under the old name.

The conditions below are the ones a call has to meet for the sync to be invisible:

* `FileSyncOk` for `sync_file`: the inode it may have to make up fits, and the bytes it stores
  are those a reader sees (nothing was moved away from the path, and no truncation was grown
  over again), or there are none to store;
* `DirSyncOk` for `sync_dir`: no flushed operation overtakes one on the same name, no hard link
  is flushed, no stored bytes are under a name whose removal is flushed, and flushed renames are
  between names that hold neither bytes nor a link (`Blank`).

The main theorem is about runs: in every state reached by calls that meet the condition, a sync
that meets it changes no observation.
-/
import Turmoil.Fs.Readers
import Turmoil.Fs.History

namespace Turmoil.Fs

namespace FsState

/-! ## 1. Observations -/

/-- Everything the running program can read is the same in both states; listings are compared
as sets. -/
structure SameView (s s' : FsState) : Prop where
  kind : ∀ q, s'.entryKind q = s.entryKind q
  len : ∀ q, s'.fileLen q = s.fileLen q
  bytes : ∀ q bufLen offset, s'.readFile q bufLen offset = s.readFile q bufLen offset
  link : ∀ q, s'.readLink q = s.readLink q
  entries : ∀ q x, x ∈ s'.dirEntries q ↔ x ∈ s.dirEntries q

theorem SameView.refl (s : FsState) : SameView s s :=
  ⟨fun _ => rfl, fun _ => rfl, fun _ _ _ => rfl, fun _ => rfl, fun _ _ => Iff.rfl⟩

/-- Lengths and reads are functions of the visible content. -/
theorem SameView.of_content {s s' : FsState} (hk : ∀ q, s'.entryKind q = s.entryKind q)
    (hc : ∀ q, s'.content q = s.content q) (hl : ∀ q, s'.readLink q = s.readLink q)
    (he : ∀ x, s'.Listed x ↔ s.Listed x) : SameView s s' where
  kind := hk
  len q := by rw [fileLen_eq_length, fileLen_eq_length, hc]
  bytes q n off := by rw [readFile_eq_slice, readFile_eq_slice, hc]
  link := hl
  entries q x := by rw [mem_dirEntries, mem_dirEntries, he]

/-! ## 2. Syncing a directory -/

/-- A name that holds neither bytes nor a link, stored or pending. -/
structure Blank (s : FsState) (q : Path) : Prop where
  stored : s.storedContent q = []
  data : s.dataAt q = []
  noSymlink : s.persistedSymlinks.contains q = false
  noLink : ∀ op ∈ s.pending, match op with
    | .createSymlink p _ _ => p ≠ q
    | .createHardLink p _ _ => p ≠ q
    | _ => True

/-- The condition on `sync_dir d`. -/
structure DirSyncOk (s : FsState) (d : Path) : Prop where
  /-- No flushed operation overtakes one that names the same path. -/
  apart : kindOps.Apart (affectsDir d) s.pending
  flushed : ∀ op ∈ s.dirFlush d, match op with
    | .createHardLink _ _ _ => False
    | .removeFile p => s.storedContent p = []
    | .rename src dst => s.Blank src ∧ s.Blank dst
    | _ => True

/-- Data operations are never flushed by `sync_dir`. -/
theorem affectsDir_of_data {d p : Path} {op : PendingOp} (h : isDataOf p op = true) :
    affectsDir d op = false := by
  cases op <;> simp_all [isDataOf, affectsDir]

theorem mem_dirFlush {s : FsState} {d : Path} {op : PendingOp} :
    op ∈ s.dirFlush d ↔ op ∈ s.pending ∧ affectsDir d op = true := List.mem_filter

theorem mem_dirKeep {s : FsState} {d : Path} {op : PendingOp} :
    op ∈ s.dirKeep d ↔ op ∈ s.pending ∧ affectsDir d op = false := by
  simp [dirKeep]

/-- Flushing replays the symlinks, if renames move none. -/
theorem foldl_applyOp_storedLink {log : List PendingOp} : ∀ {s : FsState}, s.MapsDisjoint →
    kindOps.Valid s.persistedKind log →
    (∀ src dst, PendingOp.rename src dst ∈ log → s.storedLink src = none
      ∧ ∀ target time, PendingOp.createSymlink src target time ∉ log) →
      (log.foldl applyOpToPersisted s).storedLink = log.foldl linkStep s.storedLink := by
  induction log with
  | nil => exact fun _ _ _ => rfl
  | cons op log ih =>
    intro s hd hv hren
    obtain ⟨hk, hd'⟩ := kind_applyOp hd hv.1
    have hok : kindOk s.persistedKind op := hv.1
    have hop : (s.applyOpToPersisted op).storedLink = linkStep s.storedLink op := by
      funext q
      cases op with
      | createSymlink p target time =>
        have hno := (persistedKind_eq_none.mp hok).2.2
        have hno := IndexMap.contains_eq_false.mp hno
        by_cases hq : q = p
        · subst hq
          simp [applyOpToPersisted, storedLink, linkStep, hno, SymlinkData.new]
        · simp [applyOpToPersisted, storedLink, linkStep, hq, Ne.symm hq]
      | removeFile p =>
        by_cases hq : q = p
        · simp [applyOpToPersisted, storedLink, linkStep, hq]
        · simp [applyOpToPersisted, storedLink, linkStep, hq, Ne.symm hq]
      | createHardLink p target time =>
        simp only [applyOpToPersisted]
        split <;> rfl
      | setPermissions p mode time =>
        simp only [applyOpToPersisted]
        split <;> rfl
      | rename src dst =>
        have hsrc := (hren src dst List.mem_cons_self).1
        simp only [applyOpToPersisted]
        split
        · rfl
        · split
          · rfl
          · split
            · rename_i l hl
              simp [storedLink, hl] at hsrc
            · rfl
      | _ => rfl
    rw [List.foldl_cons, List.foldl_cons, ← hop]
    refine ih hd' (hk ▸ hv.2) fun src dst hm => ?_
    obtain ⟨h1, h2⟩ := hren src dst (List.mem_cons_of_mem _ hm)
    refine ⟨?_, fun target time ht => h2 target time (List.mem_cons_of_mem _ ht)⟩
    rw [hop]
    exact foldl_linkStep_none (l := [op])
      (fun target time ht => h2 target time (by simp [List.mem_singleton.mp ht])) h1

section SyncDir

variable {s : FsState} {d : Path} (hc : s.Coherent) (h : s.DirSyncOk d)

include h

theorem DirSyncOk.blank_of_rename {src dst : Path} (hm : PendingOp.rename src dst ∈ s.dirFlush d) :
    s.Blank src ∧ s.Blank dst := h.flushed _ hm

/-- A name with pending data is not part of a flushed rename. -/
theorem DirSyncOk.pushAll_data {p : Path} {op : PendingOp} (hop : op ∈ s.pending)
    (hd : isDataOf p op = true) : pushAll s.pending p = pushAll (s.dirKeep d) p := by
  rw [pushAll_partition (affectsDir d) h.apart]
  congr 1
  refine pushAll_of_no_source fun dst hm => ?_
  have hdata := (h.blank_of_rename hm).1.data
  rw [dataAt, List.filter_eq_nil_iff] at hdata
  refine hdata op hop ?_
  rw [isDataAt_of_isDataOf hd, addressesContent, decide_eq_true rfl, Bool.true_or]

/-- The operations addressed to a stored name stay the same. -/
theorem DirSyncOk.dataAt_eq {s' : FsState} (hp : s'.pending = s.dirKeep d) (c : Path) :
    s'.dataAt c = s.dataAt c := by
  have haddr : ∀ op ∈ s.pending, ∀ p, isDataOf p op = true →
      s'.addressesContent p c = s.addressesContent p c := by
    intro op hop p hd
    rw [addressesContent, addressesContent, pathRenamedTo_eq, pathRenamedTo_eq, hp,
      h.pushAll_data hop hd]
  rw [dataAt, dataAt, hp, dirKeep, List.filter_filter]
  apply List.filter_congr
  intro op hop
  cases op with
  | write p offset data time =>
    have := haddr _ hop p (by simp [isDataOf])
    simp [isDataAt, this, affectsDir]
  | setLen p len time =>
    have := haddr _ hop p (by simp [isDataOf])
    simp [isDataAt, this, affectsDir]
  | _ => simp [isDataAt]

/-- The bytes stored under a name show as before. -/
theorem DirSyncOk.contentAt_eq (hex : s.dirExists d = true) (time : Duration) (c : Path) :
    (s.syncDir d time).1.contentAt c = s.contentAt c := by
  obtain ⟨dirs, heq, -⟩ := syncDir_spec hex time
  have hp : (s.syncDir d time).1.pending = s.dirKeep d := by rw [heq]
  have hstored : (s.syncDir d time).1.storedContent = s.storedContent := by
    have : (s.syncDir d time).1.storedContent
        = ((s.dirFlush d).foldl applyOpToPersisted s).storedContent := by
      rw [heq]
      rfl
    rw [this]
    refine foldl_applyOp_storedContent fun op hop => ?_
    have hfl := h.flushed op hop
    have haff := (mem_dirFlush.mp hop).2
    cases op <;> simp_all [keepsBytes, affectsDir, Blank.stored]
  rw [contentAt_eq_view, contentAt_eq_view, hstored, h.dataAt_eq hp]

/-- A path leads to the same stored name, or from one name without bytes to another. -/
theorem DirSyncOk.resolve_cases (hex : s.dirExists d = true) (time : Duration) (q : Path) :
    (s.syncDir d time).1.resolveContentPath q = s.resolveContentPath q
      ∨ ∃ c c', (s.syncDir d time).1.resolveContentPath q = some c'
        ∧ s.resolveContentPath q = some c ∧ s.contentAt c' = [] ∧ s.contentAt c = [] := by
  obtain ⟨dirs, heq, -⟩ := syncDir_spec hex time
  have hp : (s.syncDir d time).1.pending = s.dirKeep d := by rw [heq]
  generalize (s.syncDir d time).1 = s' at hp
  have hlinks : s.resolveHardlinkTarget = s'.resolveHardlinkTarget := by
    refine resolveHardlinkTarget_filter hp fun op hop hk p target time e => ?_
    have haff : affectsDir d op = true := by simpa using hk
    have := h.flushed op (mem_dirFlush.mpr ⟨hop, haff⟩)
    rw [e] at this
    exact this
  have hlen : s'.pending.length ≤ s.pending.length := by
    rw [hp]
    exact List.length_filter_le _ _
  have hblank : ∀ c, s.Blank c → s.contentAt c = [] := by
    intro c hb
    rw [contentAt_eq_view, hb.stored, hb.data, view_nil]
  rw [resolveContentPath, resolveContentPath, resolveContentPathIn_eq, resolveContentPathIn_eq,
    ← chase_congr hlinks hlen]
  cases chase s.resolveHardlinkTarget (s.pending.length + 1) q with
  | none => exact Or.inl rfl
  | some r =>
    simp only [Option.map_some, resolvePersistedPath_eq, hp, Option.some.injEq]
    rw [pullAll_partition (affectsDir d) h.apart]
    -- the flushed renames lead from a blank name to a blank name, or nowhere
    rcases pullAll_cases (s.dirFlush d) (pullAll (s.dirKeep d) r) with hsame | ⟨⟨src, h1⟩, dst, h2⟩
    · exact Or.inl hsame.symm
    · exact Or.inr ⟨_, _, rfl, rfl, hblank _ (h.blank_of_rename h1).2,
        hblank _ (h.blank_of_rename h2).1⟩

/-- The bytes visible at every path stay the same. -/
theorem DirSyncOk.content_eq (hex : s.dirExists d = true) (time : Duration) (q : Path) :
    (s.syncDir d time).1.content q = s.content q := by
  have hat := h.contentAt_eq hex time
  rw [content, content]
  rcases h.resolve_cases hex time q with hsame | ⟨c, c', hc', hc, hnew, hold⟩
  · rw [hsame]
    exact congrArg (fun f => (s.resolveContentPath q).map f) (funext hat)
  · rw [hc', hc, Option.map_some, Option.map_some, hat, hnew, hold]

include hc

/-- The target of every symlink stays the same. -/
theorem DirSyncOk.readLink_eq (hex : s.dirExists d = true) (time : Duration) (q : Path) :
    (s.syncDir d time).1.readLink q = s.readLink q := by
  obtain ⟨dirs, heq, -⟩ := syncDir_spec hex time
  have hp : (s.syncDir d time).1.pending = s.dirKeep d := by rw [heq]
  have hnone : ∀ {c : Path}, s.Blank c → s.storedLink c = none := by
    intro c hb
    simp [storedLink, IndexMap.contains_eq_false.mp hb.noSymlink]
  have hnocreate : ∀ {c : Path}, s.Blank c → ∀ target time,
      PendingOp.createSymlink c target time ∉ s.pending :=
    fun hb target time hm => absurd rfl (hb.noLink _ hm)
  have hstored : (s.syncDir d time).1.storedLink
      = (s.dirFlush d).foldl linkStep s.storedLink := by
    have : (s.syncDir d time).1.storedLink
        = ((s.dirFlush d).foldl applyOpToPersisted s).storedLink := by
      rw [heq]
      rfl
    rw [this]
    refine foldl_applyOp_storedLink hc.disjoint (hc.valid.partition _ _ h.apart).1 ?_
    intro src dst hm
    have hb := (h.blank_of_rename hm).1
    exact ⟨hnone hb, fun target time ht => hnocreate hb target time (mem_dirFlush.mp ht).1⟩
  have hfold : (s.dirKeep d).foldl linkStep (s.syncDir d time).1.storedLink
      = s.pending.foldl linkStep s.storedLink := by
    rw [hstored]
    exact (foldl_linkStep_partition (affectsDir d) h.apart s.storedLink).symm
  rw [FsState.readLink_eq, FsState.readLink_eq, hp, hfold]
  suffices hpath : s.pending.foldl linkStep s.storedLink (pullAll (s.dirKeep d) q)
      = s.pending.foldl linkStep s.storedLink (pullAll s.pending q) by rw [hpath]
  rw [pullAll_partition (affectsDir d) h.apart q]
  rcases pullAll_cases (s.dirFlush d) (pullAll (s.dirKeep d) q) with hsame | ⟨⟨src, h1⟩, dst, h2⟩
  · exact congrArg _ hsame.symm
  · have hb1 := (h.blank_of_rename h1).2
    have hb2 := (h.blank_of_rename h2).1
    exact (foldl_linkStep_none (hnocreate hb1) (hnone hb1)).trans
      (foldl_linkStep_none (hnocreate hb2) (hnone hb2)).symm

/-- The names listed stay the same. -/
theorem DirSyncOk.listed_iff (hex : s.dirExists d = true) (time : Duration) (x : Path) :
    (s.syncDir d time).1.Listed x ↔ s.Listed x := by
  obtain ⟨hkind, hc'⟩ := syncDir_kind hc h.apart time
  obtain ⟨hpk, -⟩ := syncDir_persistedKind hc hex h.apart time
  obtain ⟨dirs, heq, -⟩ := syncDir_spec hex time
  have hp : (s.syncDir d time).1.pending = s.dirKeep d := by rw [heq]
  have hdir := dirExists_iff.mp hex
  -- where a hard link stays pending, nothing was flushed
  have hlink : ∀ target time', PendingOp.createHardLink x target time' ∈ s.dirKeep d →
      s.entryKind x = some .file → ∀ op ∈ s.dirFlush d, x ∉ op.names := by
    intro target time' hm hfile op hop hx
    obtain ⟨hpend, hno⟩ := mem_dirKeep.mp hm
    obtain ⟨-, haff⟩ := mem_dirFlush.mp hop
    have hpar : x.parent ≠ some d := by simpa [affectsDir] using hno
    have hxd : x ≠ d := by
      rintro rfl
      rw [hfile] at hdir
      cases hdir
    have hblank : ∀ {q}, s.Blank q → q ≠ x :=
      fun hb e => absurd e.symm (hb.noLink _ hpend)
    cases op with
    | rename src dst =>
      obtain ⟨hb1, hb2⟩ := h.blank_of_rename hop
      simp only [PendingOp.names, List.mem_cons, List.not_mem_nil, or_false] at hx
      rcases hx with hx | hx
      · exact hblank hb1 hx.symm
      · exact hblank hb2 hx.symm
    | createHardLink p target time => exact h.flushed _ hop
    | createDir p time mode =>
      obtain rfl : x = p := by simpa [PendingOp.names] using hx
      simp [affectsDir, hpar, hxd] at haff
    | createFile p time mode =>
      obtain rfl : x = p := by simpa [PendingOp.names] using hx
      simp [affectsDir, hpar] at haff
    | createSymlink p target time =>
      obtain rfl : x = p := by simpa [PendingOp.names] using hx
      simp [affectsDir, hpar] at haff
    | removeFile p =>
      obtain rfl : x = p := by simpa [PendingOp.names] using hx
      simp [affectsDir, hpar] at haff
    | removeDir p =>
      obtain rfl : x = p := by simpa [PendingOp.names] using hx
      simp [affectsDir, hpar] at haff
    | _ => cases hx
  constructor
  · rintro ⟨k, hk, hl⟩
    rw [hkind] at hk
    refine ⟨k, hk, ?_⟩
    rw [hc'.disjoint.persistedHas_iff, hpk, hp] at hl
    rw [hc.disjoint.persistedHas_iff]
    rcases hl with hl | ⟨op, hop, hl⟩
    · rcases replay_source hl with hm | ⟨op, hop, hl⟩ | ⟨-, target, time', hm⟩
      · exact Or.inl hm
      · exact Or.inr ⟨op, (mem_dirFlush.mp hop).1, hl⟩
      · exact absurd (h.flushed _ hm) id
    · exact Or.inr ⟨op, (mem_dirKeep.mp hop).1, hl⟩
  · rintro ⟨k, hk, hl⟩
    refine ⟨k, by rw [hkind]; exact hk, ?_⟩
    rw [hc.disjoint.persistedHas_iff] at hl
    rw [hc'.disjoint.persistedHas_iff, hp]
    have hrep : kindOps.replay (s.syncDir d time).1.persistedKind (s.dirKeep d) x = some k := by
      rw [← hp, ← entryKind_eq_replay, hkind]
      exact hk
    rcases replay_source hrep with hm | hm | ⟨rfl, target, time', hm⟩
    · exact Or.inl hm
    · exact Or.inr hm
    · have hfree := hlink target time' hm hk
      rcases hl with hl | ⟨op, hop, hl⟩
      · left
        rw [hpk, kindOps.replay_frame hfree]
        exact hl
      · right
        refine ⟨op, mem_dirKeep.mpr ⟨hop, ?_⟩, hl⟩
        by_contra hno
        exact hfree op (mem_dirFlush.mpr ⟨hop, by simpa using hno⟩) (names_of_listsName hl)

/-- **`sync_dir` is invisible** where its condition holds. -/
theorem syncDir_sameView (hex : s.dirExists d = true) (time : Duration) :
    SameView s (s.syncDir d time).1 :=
  SameView.of_content (fun q => congrFun (syncDir_kind hc h.apart time).1 q) (h.content_eq hex time)
    (h.readLink_eq hc hex time) (h.listed_iff hc hex time)

end SyncDir

/-! ## 3. Syncing a file -/

/-- The condition on `sync_file p`. -/
structure FileSyncOk (s : FsState) (p : Path) : Prop where
  inode : s.InodeFits p
  bytes : s.pending.filter (isDataOf p) = []
    ∨ ((∀ op ∈ s.pending, match op with
        | .rename src _ => src ≠ p
        | _ => True) ∧ s.NoRegrow p)

section SyncFile

variable {s : FsState} {p : Path}

/-- Dropping data operations changes no walk over renames. -/
theorem pullAll_dropData (log : List PendingOp) (q : Path) :
    pullAll (log.filter fun op => !isDataOf p op) q = pullAll log q := by
  induction log with
  | nil => rfl
  | cons op log ih =>
    have hcons : pullAll (op :: log) q = pullPath op (pullAll log q) := rfl
    cases h : isDataOf p op with
    | false =>
      rw [List.filter_cons_of_pos (by simp [h]), hcons, ← ih]
      rfl
    | true =>
      rw [List.filter_cons_of_neg (by simp [h]), ih, hcons]
      cases op <;> first | rfl | simp [isDataOf] at h

theorem pushAll_dropData (log : List PendingOp) (q : Path) :
    pushAll (log.filter fun op => !isDataOf p op) q = pushAll log q := by
  refine foldl_filter_skip (fun op _ h q => ?_) q
  cases op <;> first | rfl | simp [isDataOf] at h

theorem foldl_linkStep_dropData (log : List PendingOp) (m : Path → Option Path) :
    (log.filter fun op => !isDataOf p op).foldl linkStep m = log.foldl linkStep m := by
  refine foldl_filter_skip (fun op _ h m => ?_) m
  cases op <;> first | rfl | simp [isDataOf] at h

theorem flushFile_pending (hex : s.fileExists p = true) :
    (s.flushFile p).1.pending = s.pending.filter (fun op => !isDataOf p op) := by
  obtain ⟨files, f, heq, -⟩ := flushFile_spec hex
  rw [heq]

theorem flushFile_readLink (hex : s.fileExists p = true) (q : Path) :
    (s.flushFile p).1.readLink q = s.readLink q := by
  have hp := flushFile_pending hex
  have hl : (s.flushFile p).1.storedLink = s.storedLink := by
    obtain ⟨files, f, heq, -⟩ := flushFile_spec hex
    rw [heq]
    rfl
  rw [FsState.readLink_eq, FsState.readLink_eq, hp, hl, pullAll_dropData, foldl_linkStep_dropData]

theorem flushFile_storedContent (hex : s.fileExists p = true) (c : Path) :
    (s.flushFile p).1.storedContent c = if c = p then s.applied p else s.storedContent c := by
  obtain ⟨files, f, heq, hf, hcontent, hother⟩ := flushFile_spec hex
  rw [heq]
  split
  · rename_i hcp
    subst hcp
    simp only [storedContent, hf, Option.map_some, Option.getD_some, hcontent]
  · rename_i hcp
    simp only [storedContent, hother c hcp]

/-- A sync of a file leaves every content path where it was. -/
theorem flushFile_resolveContentPath (hex : s.fileExists p = true) (q : Path) :
    (s.flushFile p).1.resolveContentPath q = s.resolveContentPath q := by
  have hp := flushFile_pending hex
  have hlinks : s.resolveHardlinkTarget = (s.flushFile p).1.resolveHardlinkTarget := by
    refine resolveHardlinkTarget_filter hp fun op _ hk q target time e => ?_
    rw [e] at hk
    simp [isDataOf] at hk
  have hlen : (s.flushFile p).1.pending.length ≤ s.pending.length := by
    rw [hp]
    exact List.length_filter_le _ _
  rw [resolveContentPath, resolveContentPath, resolveContentPathIn_eq, resolveContentPathIn_eq,
    ← chase_congr hlinks hlen, resolvePersistedPath_eq, resolvePersistedPath_eq, hp]
  congr 1
  funext r
  exact pullAll_dropData s.pending r

/-- The data left in the queue, as seen from a stored name. -/
theorem flushFile_dataAt (hex : s.fileExists p = true) (c : Path) :
    (s.flushFile p).1.dataAt c = (s.dataAt c).filter (fun op => !isDataOf p op) := by
  have hp := flushFile_pending hex
  have haddr : ∀ x, (s.flushFile p).1.addressesContent x c = s.addressesContent x c := by
    intro x
    rw [addressesContent, addressesContent, pathRenamedTo_eq, pathRenamedTo_eq, hp,
      pushAll_dropData]
  rw [dataAt, dataAt, hp, List.filter_filter, List.filter_filter]
  apply List.filter_congr
  intro op _
  rw [isDataAt_congr haddr, Bool.and_comm]

variable (h : s.FileSyncOk p)

include h

theorem FileSyncOk.content_eq (hex : s.fileExists p = true) (q : Path) :
    (s.flushFile p).1.content q = s.content q := by
  have hat : ∀ r, (s.flushFile p).1.contentAt (pullAll s.pending r)
      = s.contentAt (pullAll s.pending r) := by
    intro r
    generalize hcr : pullAll s.pending r = c
    rw [contentAt_eq_view, contentAt_eq_view, flushFile_dataAt hex, flushFile_storedContent hex]
    rcases h.bytes with hnone | ⟨hsrc, hgrow⟩
    · -- nothing to store
      have hkeep : (s.dataAt c).filter (fun op => !isDataOf p op) = s.dataAt c := by
        rw [List.filter_eq_self]
        intro op hop
        rw [List.filter_eq_nil_iff] at hnone
        simpa using hnone op (List.mem_filter.mp hop).1
      have hsame : (if c = p then s.applied p else s.storedContent c) = s.storedContent c := by
        split
        · rename_i hcp
          rw [hcp, applied, hnone]
          rfl
        · rfl
      rw [hkeep, hsame]
    · have hsrc : ∀ dst, PendingOp.rename p dst ∉ s.pending :=
        fun dst hm => absurd rfl (hsrc _ hm)
      by_cases hcp : c = p
      · -- a walk that ends at `p` never moved, so what is stored is what was visible
        subst hcp
        have hdst := (pullAll_eq_of_no_source hsrc hcr).2
        have hD := dataAt_eq_isDataOf hdst
        rw [hD, List.filter_filter, if_pos rfl, view_eq_applied hgrow, applied,
          show s.pending.filter (fun a => !isDataOf c a && isDataOf c a) = [] by simp]
        exact view_nil _
      · -- data recorded under `p` is not part of any other content
        have hkeep : (s.dataAt c).filter (fun op => !isDataOf p op) = s.dataAt c := by
          rw [List.filter_eq_self]
          intro op hop
          have hat := (List.mem_filter.mp hop).2
          have hpc : s.addressesContent p c = false := by
            rw [addressesContent, pathRenamedTo_eq, pushAll_of_no_source hsrc]
            simp [Ne.symm hcp]
          by_contra hno
          have hno : isDataOf p op = true := by simpa using hno
          rw [isDataAt_of_isDataOf hno, hpc] at hat
          cases hat
        rw [hkeep, if_neg hcp]
  rw [content, content, flushFile_resolveContentPath hex, resolveContentPath,
    resolveContentPathIn_eq]
  cases chase s.resolveHardlinkTarget (s.pending.length + 1) q with
  | none => rfl
  | some r => simp only [Option.map_some, resolvePersistedPath_eq, hat]

theorem FileSyncOk.listed_iff (hc : s.Coherent) (hex : s.fileExists p = true) (x : Path) :
    (s.flushFile p).1.Listed x ↔ s.Listed x := by
  obtain ⟨hkind, hc'⟩ := flushFile_kind hc (fun _ => h.inode)
  obtain ⟨files, f, heq, hf, -, hother⟩ := flushFile_spec hex
  have hpend : ∀ k, (∃ op ∈ (s.flushFile p).1.pending, listsName k x op)
      ↔ ∃ op ∈ s.pending, listsName k x op := by
    intro k
    rw [heq]
    constructor
    · rintro ⟨op, hop, hl⟩
      exact ⟨op, (List.mem_filter.mp hop).1, hl⟩
    · rintro ⟨op, hop, hl⟩
      refine ⟨op, List.mem_filter.mpr ⟨hop, ?_⟩, hl⟩
      rw [not_isDataOf_of_listsName hl]
      rfl
  refine exists_congr fun k => ?_
  rw [hkind, hpend]
  refine and_congr_right fun hk => ?_
  by_cases hxp : x = p ∧ k = .file
  · obtain ⟨rfl, rfl⟩ := hxp
    -- a made-up inode shows a name that was listed already
    have hnew : (s.flushFile x).1.persistedHas .file x = true := by
      rw [heq]
      exact IndexMap.contains_iff.mpr ⟨f, hf⟩
    refine ⟨fun _ => ?_, fun _ => Or.inl hnew⟩
    rcases h.inode with hin | hin
    · exact Or.inl (hc.disjoint.persistedHas_iff.mpr hin)
    · have hrep := (congrFun (entryKind_eq_replay s) x).symm.trans hk
      rcases replay_source hrep with hm | hm | ⟨-, target, time, hm⟩
      · rw [hin.absent] at hm
        cases hm
      · exact Or.inr hm
      · exact absurd rfl (hin.fits _ hm)
  · have hsame : (s.flushFile p).1.persistedHas k x = s.persistedHas k x := by
      rw [heq]
      cases k with
      | file =>
        have hne : x ≠ p := fun e => hxp ⟨e, rfl⟩
        simp only [persistedHas, IndexMap.contains, hother x hne]
      | directory => rfl
      | symlink => rfl
    rw [hsame]

/-- **`sync_file` is invisible** where its condition holds. -/
theorem flushFile_sameView (hc : s.Coherent) (hex : s.fileExists p = true) :
    SameView s (s.flushFile p).1 :=
  SameView.of_content (fun q => congrFun (flushFile_kind hc (fun _ => h.inode)).1 q)
    (h.content_eq hex) (flushFile_readLink hex) (h.listed_iff hc hex)

end SyncFile

/-! ## 4. Runs -/

/-- The condition on each call of a history. -/
def SyncSafe (s : FsState) : FsOp → Prop
  | .createFile p _ _ => s.entryKind p = none ∨ s.entryKind p = some .file
  | .rename src dst =>
    src ≠ dst ∧ (s.entryKind dst = none ∨ s.entryKind dst = s.entryKind src)
  | .syncFile p => s.fileExists p = true → s.FileSyncOk p
  | .syncFileData p => s.fileExists p = true → s.FileSyncOk p
  | .syncDir d _ => s.dirExists d = true → s.DirSyncOk d
  | _ => True

theorem coherent_new (config : FsConfig) : (FsState.new config).Coherent :=
  ⟨fun p => by simp [FsState.new], trivial⟩

/-- What is left of a torn write is a write of its first bytes. -/
theorem tornWrite_eq_some {s : FsState} {blockSize surviving : Nat} {op o : PendingOp}
    (h : s.tornWrite blockSize surviving op = some o) :
    ∃ p offset data time n, op = .write p offset data time
      ∧ o = .write p offset (data.take n) time := by
  cases op with
  | write p offset data time =>
    simp only [tornWrite] at h
    split at h
    · cases h
    · cases h
      exact ⟨_, _, _, _, _, rfl, rfl⟩
  | _ => cases h

/-- Torn writes change nothing that one write applied leaves alone. -/
theorem applyTornWrites_keeps {α : Type} (f : FsState → α)
    (hf : ∀ (t : FsState) p off data time,
      f (t.applyOpToPersisted (.write p off data time)) = f t)
    (s : FsState) (blockSize : Nat) (surviving : Nat → Nat) :
    f (s.applyTornWrites blockSize surviving) = f s := by
  have hfold : ∀ (log : List PendingOp) (t : FsState),
      (∀ op ∈ log, ∃ p off data time, op = .write p off data time) →
      f (log.foldl applyOpToPersisted t) = f t := by
    intro log
    induction log with
    | nil => exact fun _ _ => rfl
    | cons op log ih =>
      intro t h
      obtain ⟨p, off, data, time, rfl⟩ := h op List.mem_cons_self
      rw [List.foldl_cons, ih _ (fun o ho => h o (List.mem_cons_of_mem _ ho)), hf]
  refine hfold _ s fun op hop => ?_
  obtain ⟨⟨o, i⟩, -, hsome⟩ := List.mem_filterMap.mp hop
  obtain ⟨p, off, data, time, n, -, rfl⟩ := tornWrite_eq_some hsome
  exact ⟨_, _, _, _, rfl⟩

/-- They change no kind. -/
theorem applyTornWrites_bits (s : FsState) (blockSize : Nat) (surviving : Nat → Nat) :
    (s.applyTornWrites blockSize surviving).bits = s.bits := by
  refine applyTornWrites_keeps bits (fun t p off data time => ?_) s blockSize surviving
  funext q
  simp [bits, applyOpToPersisted]

theorem crash_coherent {s : FsState} (hd : s.MapsDisjoint) (surviving : Nat → Nat) :
    (s.crash surviving).Coherent := by
  have hret : ∀ t : FsState, t.MapsDisjoint → ({ t with
      pending := []
      persistedFiles := t.persistedFiles.retainKeys t.syncedEntries.contains
      persistedDirs := t.persistedDirs.retainKeys t.syncedEntries.contains
      persistedSymlinks := t.persistedSymlinks.retainKeys t.syncedEntries.contains }
        : FsState).Coherent := by
    refine fun t ht => ⟨fun q => ?_, trivial⟩
    have := ht q
    simp only [IndexMap.contains_retainKeys]
    cases t.syncedEntries.contains q with
    | false => simp
    | true => simpa using this
  unfold crash
  cases hb : s.blockSize with
  | none => exact hret s hd
  | some b => exact hret _ (mapsDisjoint_congr (s.applyTornWrites_bits b surviving).symm hd)

/-- **Every call that meets its condition keeps the state coherent.** -/
theorem Coherent.apply {s : FsState} {op : FsOp} (h : s.Coherent) (hop : s.SyncSafe op) :
    (s.apply op).1.Coherent := by
  cases op with
  | mkdir p time mode =>
    rcases s.mkdir_cases p time mode with ⟨e, he⟩ | ⟨he, -, hp⟩ <;> simp only [FsState.apply, he]
    · exact h
    · exact h.push hp
  | createFile p time mode => exact h.push hop
  | symlink p target time =>
    rcases s.createSymlink_cases p target time with ⟨e, he⟩ | ⟨he, -, hp⟩ <;>
      simp only [FsState.apply, he]
    · exact h
    · exact h.push hp
  | hardLink p target time =>
    rcases s.createHardLink_cases p target time with ⟨e, he⟩ | ⟨he, -, hp, ht⟩ <;>
      simp only [FsState.apply, he]
    · exact h
    · exact h.push ⟨hp, ht⟩
  | writeFile p offset data time =>
    simp only [FsState.apply, writeFile]
    split
    · exact h
    · exact h.push trivial
  | setFileLen p len time =>
    exact Coherent.push (s := s.invalidateCache p) ⟨h.disjoint, h.valid⟩ trivial
  | setPermissions p mode time =>
    rcases s.setPermissions_cases p mode time with ⟨e, he⟩ | he <;> simp only [FsState.apply, he]
    · exact h
    · exact h.push trivial
  | rename src dst =>
    rcases s.rename_cases src dst with ⟨e, he⟩ | ⟨he, -, hsrc, -, -⟩ <;>
      simp only [FsState.apply, he]
    · exact h
    · exact h.push ⟨hop.1, hsrc, hop.2⟩
  | unlink p =>
    rcases s.unlink_cases p with ⟨e, he⟩ | ⟨he, hp⟩ <;> simp only [FsState.apply, he]
    · exact h
    · exact Coherent.push (s := s.invalidateCache p) ⟨h.disjoint, h.valid⟩ hp
  | rmdir p =>
    rcases s.rmdir_cases p with ⟨e, he⟩ | ⟨he, hp, -⟩ <;> simp only [FsState.apply, he]
    · exact h
    · exact h.push hp
  | syncFile p => exact (flushFile_kind h fun hex => (hop hex).inode).2
  | syncFileData p => exact (flushFile_kind h fun hex => (hop hex).inode).2
  | syncDir d time =>
    cases hex : s.dirExists d with
    | false =>
      simp only [FsState.apply, syncDir_err hex]
      exact h
    | true => exact (syncDir_kind h (hop hex).apart time).2
  | crash surviving => exact crash_coherent h.disjoint surviving

/-- The sync calls. -/
def isSyncCall : FsOp → Bool
  | .syncFile _ | .syncFileData _ | .syncDir _ _ => true
  | _ => false

/-- A sync call that meets its condition is invisible in a coherent state. -/
theorem Coherent.sync_sameView {s : FsState} (h : s.Coherent) {op : FsOp}
    (hsync : isSyncCall op = true) (hop : s.SyncSafe op) : SameView s (s.apply op).1 := by
  cases op with
  | syncFile p =>
    cases hex : s.fileExists p with
    | false =>
      simp only [FsState.apply, syncFile, flushFile_err hex]
      exact SameView.refl s
    | true => exact flushFile_sameView (hop hex) h hex
  | syncFileData p =>
    cases hex : s.fileExists p with
    | false =>
      simp only [FsState.apply, syncFileData, flushFile_err hex]
      exact SameView.refl s
    | true => exact flushFile_sameView (hop hex) h hex
  | syncDir d time =>
    cases hex : s.dirExists d with
    | false =>
      simp only [FsState.apply, syncDir_err hex]
      exact SameView.refl s
    | true => exact syncDir_sameView h (hop hex) hex time
  | _ => cases hsync

/-- **Syncing is invisible along safe runs.**  In every state reached by calls that meet their
condition, every sync call that meets its own, whether it succeeds or fails, changes no kind, no
length, no byte, no link target and no listing of any path. -/
theorem sync_invisible (config : FsConfig) (ops : List FsOp)
    (hops : Along SyncSafe (FsState.new config) ops) (op : FsOp) (hsync : isSyncCall op = true)
    (hop : ((FsState.new config).run ops).SyncSafe op) (q : Path) :
    let before := (FsState.new config).run ops
    let after := (before.apply op).1
    after.entryKind q = before.entryKind q
    ∧ after.fileLen q = before.fileLen q
    ∧ (∀ bufLen offset, after.readFile q bufLen offset = before.readFile q bufLen offset)
    ∧ after.readLink q = before.readLink q
    ∧ ∀ x, x ∈ after.dirEntries q ↔ x ∈ before.dirEntries q := by
  intro before after
  have hc : before.Coherent :=
    Turmoil.Along.invariant (fun s op h hop => h.apply hop) (coherent_new config) hops
  have hview := hc.sync_sameView hsync hop
  exact ⟨hview.kind q, hview.len q, hview.bytes q, hview.link q, hview.entries q⟩

/-- A new file and its bytes. -/
def newFileHistory : List FsOp :=
  [.createFile (Path.abs ["a"]) 0 0o644, .writeFile (Path.abs ["a"]) 0 [1] 0]

/-- The theorem at a sync of the new file. -/
theorem sync_invisible_newFile :
    Along SyncSafe (FsState.new FsConfig.default) newFileHistory
    ∧ ((FsState.new FsConfig.default).run newFileHistory).SyncSafe (.syncFile (Path.abs ["a"]))
    ∧ (((FsState.new FsConfig.default).run newFileHistory).apply
        (.syncFile (Path.abs ["a"]))).1.fileLen (Path.abs ["a"]) = some 1 := by
  have hops : Along SyncSafe (FsState.new FsConfig.default) newFileHistory :=
    ⟨Or.inl (by decide), trivial, trivial⟩
  have hop : ((FsState.new FsConfig.default).run newFileHistory).SyncSafe
      (.syncFile (Path.abs ["a"])) := by
    refine fun _ => ⟨Or.inr ⟨by decide, ?_, Or.inl ?_⟩, Or.inr ⟨?_, by decide⟩⟩
    · intro op hop
      simp only [newFileHistory, run_cons, run_nil, FsState.apply, createFileWithMode, writeFile,
        push, FsState.new, List.isEmpty_cons, Bool.false_eq_true, if_false, List.nil_append,
        List.cons_append, List.mem_cons, List.not_mem_nil, or_false] at hop
      rcases hop with rfl | rfl <;> trivial
    · intro q hq
      simp [newFileHistory, FsState.apply, createFileWithMode, writeFile, push, FsState.new] at hq
    · intro op hop
      simp only [newFileHistory, run_cons, run_nil, FsState.apply, createFileWithMode, writeFile,
        push, FsState.new, List.isEmpty_cons, Bool.false_eq_true, if_false, List.nil_append,
        List.cons_append, List.mem_cons, List.not_mem_nil, or_false] at hop
      rcases hop with rfl | rfl <;> trivial
  refine ⟨hops, hop, ?_⟩
  rw [(sync_invisible FsConfig.default _ hops _ rfl hop (Path.abs ["a"])).2.1]
  decide

/-- A file that is written, renamed, and then made durable with its directory. -/
def renamedHistory : List FsOp :=
  [.createFile (Path.abs ["a"]) 0 0o644, .writeFile (Path.abs ["a"]) 0 [1] 0,
    .rename (Path.abs ["a"]) (Path.abs ["b"])]

/-- **Syncing is visible after a rename.**  The bytes of the renamed file were recorded under
its old name; the sync makes the rename durable without them. -/
theorem sync_visible_after_rename :
    ((FsState.new FsConfig.default).run renamedHistory).fileLen (Path.abs ["b"]) = some 1
    ∧ ((((FsState.new FsConfig.default).run renamedHistory).apply (.syncDir Path.root 0)).2.toBool
        = true)
    ∧ (((FsState.new FsConfig.default).run renamedHistory).apply (.syncDir Path.root 0)).1.fileLen
        (Path.abs ["b"]) = some 0 := by
  decide

end FsState

end Turmoil.Fs
