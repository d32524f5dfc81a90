/-
# What the calls that follow links see

`exists`, `metadata` and `OpenOptions::open` do not use `canonicalize`.  Each of them asks whether
there is a symlink under the path as it is written, and if so goes on with the link's target as it
is written: one link is followed, no parent directory is resolved, and a relative target is not
taken relative to anything.  So they see the canonical path only where that one hop leads to it
(`followed_iff`), or where it leads to another directory of the same mode, which `metadata` cannot
tell from it.  A chain of links with nothing at its end is reported as missing only where the
target of its first link is written as the name of nothing.
-/
import Turmoil.Fs.Canonical
import Turmoil.Fs.Links

namespace Turmoil.Fs

/-! ## 1. The source -/

/-- Creation, modification and change time. -/
abbrev Timestamps := Duration × Duration × Duration

namespace FsState

/-- `file_timestamps`. -/
def fileTimestamps (s : FsState) (path : Path) : Option Timestamps :=
  s.pending.foldl (fun timestamps op =>
    match op with
    | .createFile p time _ => if p = path then some (time, time, time) else timestamps
    | .write p _ _ time | .setLen p _ time =>
      if s.addressesContent p path then timestamps.map fun t => (t.1, time, time) else timestamps
    | _ => timestamps)
    ((s.persistedFiles.get? (s.resolvePersistedPath path)).map fun f =>
      (f.crtime, f.mtime, f.ctime))

/-- `dir_timestamps`. -/
def dirTimestamps (s : FsState) (path : Path) : Option Timestamps :=
  s.pending.foldl (fun timestamps op =>
    match op with
    | .createDir p time _ =>
      if p = path then some (time, time, time)
      else if p.parent = some path then timestamps.map fun t => (t.1, time, time)
      else timestamps
    | .createFile p time _ =>
      if p.parent = some path then timestamps.map fun t => (t.1, time, time) else timestamps
    | .removeFile p | .removeDir p =>
      if p.parent = some path then timestamps.map fun t => (t.1, t.2.1, t.2.1) else timestamps
    | .rename src dst =>
      if src.parent = some path ∨ dst.parent = some path then
        timestamps.map fun t => (t.1, t.2.1, t.2.1)
      else timestamps
    | _ => timestamps)
    ((s.persistedDirs.get? path).map fun d => (d.crtime, d.mtime, d.ctime))

end FsState

structure Metadata where
  len : Nat
  isDir : Bool
  isSymlink : Bool
  times : Timestamps
  mode : Nat
  nlink : Nat
  deriving DecidableEq, Repr

namespace Shim

/-- `fs::exists`. -/
def pathExists (s : FsState) (path : Path) : Bool :=
  match openTarget s path with
  | .error _ => false
  | .ok resolved => s.fileExists resolved || s.dirExists resolved || s.symlinkExists resolved

/-- `fs::metadata`. -/
def metadata (s : FsState) (path : Path) : Except ShimError Metadata :=
  match openTarget s path with
  | .error e => .error e
  | .ok resolved =>
    if s.fileExists resolved then
      match s.fileLen resolved, s.fileNlink resolved with
      | some len, some nlink => .ok ⟨len, false, false, (s.fileTimestamps resolved).getD (0, 0, 0),
          (s.fileMode resolved).getD 0o644, nlink⟩
      | _, _ => .error .overflow
    else if s.dirExists resolved then
      .ok ⟨0, true, false, (s.dirTimestamps resolved).getD (0, 0, 0),
        (s.dirMode resolved).getD 0o755, 2⟩
    else .error (.io .notFound "file or directory not found")

end Shim

open Shim

/-! ## 2. What they are to see -/

/-- The metadata of the entry at `q`: kind, length and mode. -/
def Describes (s : FsState) (q : Path) (m : Metadata) : Prop :=
  match s.entryKind q with
  | some .file => m.isDir = false ∧ m.isSymlink = false ∧ s.fileLen q = some m.len
      ∧ m.mode = (s.fileMode q).getD 0o644
  | some .directory => m.isDir = true ∧ m.isSymlink = false ∧ m.len = 0
      ∧ m.mode = (s.dirMode q).getD 0o755
  | some .symlink => m.isSymlink = true
  | none => False

/-- Opening `p` is opening the file at `q`, and the descriptor stands for `q`. -/
def Opens (s : FsState) (p q : Path) : Prop :=
  ∀ (o : OpenOptions) (now : Duration), o.createNew = false →
    openFile s o p now = openFile s o q now
      ∧ ∃ t f, openFile s o p now = (t, .ok f) ∧ t.openHandles.get? f.fd = some q

/-- The three calls see `q` under `p`. -/
structure FollowedTo (s : FsState) (p q : Path) : Prop where
  exist : pathExists s p = true
  describes : ∃ m, metadata s p = .ok m ∧ Describes s q m
  opens : s.entryKind q = some .file → Opens s p q

/-- A chain of symlinks from `p` with nothing at its end. -/
inductive Dangling (s : FsState) : Path → Prop where
  | last {p target : Path} (hlink : s.symlinkExists p = true) (hread : s.readLink p = .ok target)
      (hnone : s.entryKind (p.pop.push target) = none) : Dangling s p
  | next {p target : Path} (hlink : s.symlinkExists p = true) (hread : s.readLink p = .ok target)
      (h : Dangling s (p.pop.push target)) : Dangling s p

/-- The two calls see nothing under `p`. -/
def SeenMissing (s : FsState) (p : Path) : Prop :=
  pathExists s p = false ∧ ∃ message, metadata s p = .error (.io .notFound message)

/-! ## 3. One hop -/

/-- `p` itself, or what the symlink at `p` has as its target. -/
def HopsTo (s : FsState) (p r : Path) : Prop :=
  if s.symlinkExists p then s.readLink p = .ok r else r = p

/-- **The condition**: the one hop leads to the file, or to a directory like the one at `q`. -/
def OneHop (s : FsState) (p q : Path) : Prop :=
  match s.entryKind q with
  | some .file => HopsTo s p q ∧ s.fileLen q ≠ none
  | some .directory => ∃ r, HopsTo s p r ∧ s.dirExists r = true
      ∧ (s.dirMode r).getD 0o755 = (s.dirMode q).getD 0o755
  | _ => False

variable {s : FsState} {p q r : Path}

theorem openTarget_eq_ok_iff : openTarget s p = .ok r ↔ HopsTo s p r := by
  unfold openTarget HopsTo
  split
  · cases s.readLink p <;> simp
  · exact ⟨fun h => (Except.ok.inj h).symm, fun h => by rw [h]⟩

/-- The recursions for the length and for the number of links return together. -/
theorem fileNlink_eq_none_iff : s.fileNlink p = none ↔ s.fileLen p = none := by
  simp only [FsState.fileNlink, FsState.fileNlinkIn_eq, FsState.fileLen,
    FsState.resolveContentPath, FsState.resolveContentPathIn_eq, Option.map_eq_none_iff]

/-- **`metadata`** answers for what the one hop leads to. -/
theorem metadata_eq_ok_iff {m : Metadata} : metadata s p = .ok m ↔ ∃ r, HopsTo s p r
    ∧ ((∃ len nlink, s.fileExists r = true ∧ s.fileLen r = some len ∧ s.fileNlink r = some nlink
          ∧ m = ⟨len, false, false, (s.fileTimestamps r).getD (0, 0, 0),
            (s.fileMode r).getD 0o644, nlink⟩)
        ∨ (s.dirExists r = true ∧ m = ⟨0, true, false, (s.dirTimestamps r).getD (0, 0, 0),
            (s.dirMode r).getD 0o755, 2⟩)) := by
  simp only [← openTarget_eq_ok_iff, metadata]
  cases openTarget s p with
  | error e => simp
  | ok r =>
    simp only [Except.ok.injEq, exists_eq_left']
    by_cases hfile : s.fileExists r = true
    · have hdir : s.dirExists r = false := by
        rw [FsState.fileExists_iff] at hfile
        simp [FsState.dirExists, hfile]
      simp only [hfile, hdir, if_true, true_and, Bool.false_eq_true, false_and, or_false]
      cases s.fileLen r <;> cases s.fileNlink r <;> simp [eq_comm]
    · simp only [hfile, Bool.false_eq_true, if_false, false_and, exists_false, false_or]
      by_cases hdir : s.dirExists r = true <;> simp [hdir, eq_comm]

/-- What is no symlink leads to itself. -/
theorem HopsTo.self (h : s.symlinkExists q = false) : HopsTo s q q := by simp [HopsTo, h]

theorem not_symlink_of_file (h : s.entryKind q = some .file) : s.symlinkExists q = false := by
  simp [FsState.symlinkExists, h]

theorem pathExists_iff : pathExists s p = true ↔ ∃ r, HopsTo s p r ∧ s.entryKind r ≠ none := by
  simp only [← openTarget_eq_ok_iff, pathExists]
  cases openTarget s p with
  | error e => simp
  | ok r =>
    simp only [Except.ok.injEq, exists_eq_left', Ne, FsState.entryKind_eq_none_iff]
    cases s.fileExists r <;> cases s.dirExists r <;> cases s.symlinkExists r <;> simp

theorem finishOpen_handle (s : FsState) (o : OpenOptions) (r : Path) (now : Duration) :
    ∃ t f, finishOpen s o r now = (t, .ok f) ∧ t.openHandles.get? f.fd = some r := by
  refine ⟨_, _, rfl, ?_⟩
  split <;> simp

/-- The descriptor an open hands out stands for what the one hop leads to. -/
theorem openFile_handle {o : OpenOptions} {now : Duration} {t : FsState} {f : File}
    (h : openFile s o p now = (t, .ok f)) :
    ∃ r, HopsTo s p r ∧ t.openHandles.get? f.fd = some r := by
  unfold openFile at h
  split at h
  · cases h
  · rename_i r hr
    refine ⟨r, openTarget_eq_ok_iff.mp hr, ?_⟩
    have hfinish : ∀ s' : FsState, finishOpen s' o r now = (t, .ok f) →
        t.openHandles.get? f.fd = some r := by
      intro s' h'
      obtain ⟨t', f', heq, hget⟩ := finishOpen_handle s' o r now
      cases heq.symm.trans h'
      exact hget
    split at h
    · cases h
    · split at h
      · split at h
        · split at h
          · cases h
          · exact hfinish _ h
        · cases h
      · exact hfinish _ h

/-- **Opening through the one hop** is opening the file it leads to. -/
theorem opens_of_hopsTo (h : HopsTo s p q) (hfile : s.entryKind q = some .file) : Opens s p q := by
  intro o now hnew
  have hp := openTarget_eq_ok_iff.mpr h
  have hq := openTarget_eq_ok_iff.mpr (HopsTo.self (not_symlink_of_file hfile))
  have hexists : s.fileExists q = true := FsState.fileExists_iff.mpr hfile
  have hopen : openFile s o p now = finishOpen s o q now := by
    simp [openFile, hp, hnew, hexists]
  refine ⟨by simp only [openFile, hp, hq], ?_⟩
  rw [hopen]
  exact finishOpen_handle s o q now

theorem hopsTo_of_opens (h : Opens s p q) : HopsTo s p q := by
  obtain ⟨-, t, f, hopen, hget⟩ := h OpenOptions.default 0 rfl
  obtain ⟨r, hr, hget'⟩ := openFile_handle hopen
  cases hget.symm.trans hget'
  exact hr

/-! ## 4. When they follow -/

theorem followedTo_file_iff (hfile : s.entryKind q = some .file) :
    FollowedTo s p q ↔ HopsTo s p q ∧ s.fileLen q ≠ none := by
  constructor
  · rintro ⟨-, ⟨m, -, hm⟩, hopens⟩
    simp only [Describes, hfile] at hm
    exact ⟨hopsTo_of_opens (hopens hfile), by simp [hm.2.2.1]⟩
  · rintro ⟨hhop, hlen⟩
    obtain ⟨len, hlen⟩ := Option.ne_none_iff_exists'.mp hlen
    obtain ⟨nlink, hnlink⟩ := Option.ne_none_iff_exists'.mp
      (mt fileNlink_eq_none_iff.mp (by simp [hlen] : s.fileLen q ≠ none))
    refine ⟨pathExists_iff.mpr ⟨q, hhop, by simp [hfile]⟩,
      ⟨_, metadata_eq_ok_iff.mpr ⟨q, hhop, .inl ⟨len, nlink, FsState.fileExists_iff.mpr hfile,
        hlen, hnlink, rfl⟩⟩, ?_⟩, fun _ => opens_of_hopsTo hhop hfile⟩
    simp [Describes, hfile, hlen]

theorem followedTo_dir_iff (hdir : s.entryKind q = some .directory) :
    FollowedTo s p q ↔ ∃ r, HopsTo s p r ∧ s.dirExists r = true
      ∧ (s.dirMode r).getD 0o755 = (s.dirMode q).getD 0o755 := by
  constructor
  · rintro ⟨-, ⟨m, hmeta, hm⟩, -⟩
    simp only [Describes, hdir] at hm
    obtain ⟨r, hhop, ⟨len, nlink, -, -, -, rfl⟩ | ⟨hr, rfl⟩⟩ := metadata_eq_ok_iff.mp hmeta
    · cases hm.1
    · exact ⟨r, hhop, hr, hm.2.2.2⟩
  · rintro ⟨r, hhop, hr, hmode⟩
    have hkind := FsState.dirExists_iff.mp hr
    refine ⟨pathExists_iff.mpr ⟨r, hhop, by simp [hkind]⟩,
      ⟨_, metadata_eq_ok_iff.mpr ⟨r, hhop, .inr ⟨hr, rfl⟩⟩, ?_⟩, fun h => ?_⟩
    · simp [Describes, hdir, hmode]
    · cases hdir.symm.trans h

/-- `metadata` never describes a symlink. -/
theorem not_followedTo_symlink (hlink : s.entryKind q = some .symlink) : ¬ FollowedTo s p q := by
  rintro ⟨-, ⟨m, hmeta, hm⟩, -⟩
  simp only [Describes, hlink] at hm
  obtain ⟨r, -, ⟨len, nlink, -, -, -, rfl⟩ | ⟨-, rfl⟩⟩ := metadata_eq_ok_iff.mp hmeta <;> cases hm

theorem followedTo_iff : FollowedTo s p q ↔ OneHop s p q := by
  unfold OneHop
  split
  · rename_i hfile
    exact followedTo_file_iff hfile
  · rename_i hdir
    exact followedTo_dir_iff hdir
  · rename_i hfile hdir
    refine iff_of_false (fun h => ?_) id
    cases hk : s.entryKind q with
    | none =>
      obtain ⟨m, -, hm⟩ := h.describes
      simp [Describes, hk] at hm
    | some k =>
      cases k with
      | file => exact hfile hk
      | directory => exact hdir hk
      | symlink => exact not_followedTo_symlink hk h

theorem Dangling.link (h : Dangling s p) :
    s.symlinkExists p = true ∧ ∃ target, s.readLink p = .ok target := by
  cases h with
  | last hlink hread => exact ⟨hlink, _, hread⟩
  | next hlink hread => exact ⟨hlink, _, hread⟩

/-- A symlink is seen as missing exactly if its target, as written, names nothing. -/
theorem seenMissing_iff {target : Path} (hlink : s.symlinkExists p = true)
    (hread : s.readLink p = .ok target) : SeenMissing s p ↔ s.entryKind target = none := by
  have hopen : openTarget s p = .ok target := by simp [openTarget, hlink, hread]
  rw [FsState.entryKind_eq_none_iff]
  constructor
  · rintro ⟨hexists, -⟩
    simpa [pathExists, hopen, and_assoc] using hexists
  · rintro ⟨hfile, hdir, hsym⟩
    simp [SeenMissing, pathExists, metadata, hopen, hfile, hdir, hsym]

/-- **The calls that follow links agree with `canonicalize`** exactly where the one hop they take
leads to the canonical path, or to a directory that looks like it; and a chain of links that leads
nowhere is missing for them exactly if the target of its first link, as written, names nothing. -/
theorem followed_iff (s : FsState) (p : Path) :
    (∀ q, canonicalize s p = .ok q → (FollowedTo s p q ↔ OneHop s p q))
      ∧ (Dangling s p →
          (SeenMissing s p ↔ ∀ target, s.readLink p = .ok target → s.entryKind target = none)) := by
  refine ⟨fun q _ => followedTo_iff, fun h => ?_⟩
  obtain ⟨hlink, target, hread⟩ := h.link
  rw [seenMissing_iff hlink hread]
  exact ⟨fun hnone t ht => by cases hread.symm.trans ht; exact hnone, fun h => h target hread⟩

/-- Through one link, as `canonicalize` does. -/
theorem followed_iff_link :
    FollowedTo (linked (Path.abs ["d"])) (Path.abs ["l"]) (Path.abs ["d"]) := by
  have hcanon : canonicalize (linked (Path.abs ["d"])) (Path.abs ["l"]) = .ok (Path.abs ["d"]) := by
    decide
  refine ((followed_iff (linked (Path.abs ["d"])) (Path.abs ["l"])).1 _ hcanon).mpr ?_
  exact ⟨Path.abs ["d"], rfl, rfl, rfl⟩

/-- A directory `d`, a link `m` to it and a link `l` to that. -/
def linkedTwice : FsState :=
  ((linked (Path.abs ["d"])).apply (.symlink (Path.abs ["m"]) (Path.abs ["l"]) 0)).1

/-- **The second link of a chain is not followed**: `metadata` reports `NotFound`, where
`canonicalize` finds the directory. -/
theorem second_link_not_followed :
    (canonicalize linkedTwice (Path.abs ["m"]) = .ok (Path.abs ["d"])
        ∧ metadata linkedTwice (Path.abs ["m"])
          = .error (.io .notFound "file or directory not found"))
      ∧ ¬ ∀ (ops : List FsOp) (p q : Path), p.hasRoot = true →
          canonicalize ((FsState.new FsConfig.default).run ops) p = .ok q →
          FollowedTo ((FsState.new FsConfig.default).run ops) p q := by
  have hcanon : canonicalize linkedTwice (Path.abs ["m"]) = .ok (Path.abs ["d"]) := by decide
  have hmeta : metadata linkedTwice (Path.abs ["m"])
      = .error (.io .notFound "file or directory not found") := rfl
  refine ⟨⟨hcanon, hmeta⟩, fun h => ?_⟩
  have hfollowed : FollowedTo linkedTwice (Path.abs ["m"]) (Path.abs ["d"]) :=
    h [.mkdir (Path.abs ["d"]) 0 0o755, .symlink (Path.abs ["l"]) (Path.abs ["d"]) 0,
      .symlink (Path.abs ["m"]) (Path.abs ["l"]) 0] _ _ rfl hcanon
  obtain ⟨m, hm, -⟩ := hfollowed.describes
  cases hmeta.symm.trans hm

end Turmoil.Fs
