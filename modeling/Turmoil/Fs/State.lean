/-
# The state of one host's simulated filesystem

`FsState` keeps three maps of inode data that survive a crash (`persistedFiles`,
`persistedDirs`, `persistedSymlinks`), the set of paths whose directory entry is durable
(`syncedEntries`), and the queue of operations that are not durable yet (`pending`).  There is
no tree: every map is keyed by the whole path, and what exists at a path NOW is recomputed by
walking `pending` backwards over the maps.

Paths are compared the way `std::path` compares them, by their components.  Timestamps are
kept because the operations carry them; the random generator is not part of the state, and
the operations that draw from it take the outcome as an argument instead.
-/
import Turmoil.Lib.IndexMap
import Turmoil.Lib.Bytes

namespace Turmoil.Fs

/-! ## 1. Paths -/

/-- A path component after the root.  `.` is a component only at the head of a relative path. -/
inductive Component where
  | curDir
  | parentDir
  | normal (name : String)
  deriving DecidableEq, Repr

/-- `PathBuf`, as the sequence of components that its equality and its hash look at. -/
structure Path where
  hasRoot : Bool
  comps : List Component
  deriving DecidableEq, Repr

namespace Path

/-- `/`. -/
def root : Path := ⟨true, []⟩

/-- The absolute path with the given names. -/
def abs (names : List String) : Path := ⟨true, names.map Component.normal⟩

/-- `Path::parent`: the path without its last component; none for `/` and for the empty path. -/
def parent (p : Path) : Option Path :=
  match p.comps with
  | [] => none
  | _ :: _ => some ⟨p.hasRoot, p.comps.dropLast⟩

/-- `as_os_str().is_empty()`. -/
def isEmpty (p : Path) : Bool := !p.hasRoot && p.comps.isEmpty

theorem parent_length {p d : Path} (h : p.parent = some d) :
    d.comps.length + 1 = p.comps.length := by
  unfold parent at h
  split at h
  · cases h
  · rename_i c l hc
    cases h
    simp [hc]

theorem parent_ne_self {p : Path} : p.parent ≠ some p := fun h => by
  have := parent_length h
  omega

theorem parent_hasRoot {p d : Path} (h : p.parent = some d) : d.hasRoot = p.hasRoot := by
  unfold parent at h
  split at h
  · cases h
  · cases h
    rfl

/-- An absolute path without a parent is the root. -/
theorem eq_root_of_parent_eq_none {p : Path} (hr : p.hasRoot = true) (h : p.parent = none) :
    p = root := by
  obtain ⟨r, c⟩ := p
  cases c with
  | nil => simp only at hr; rw [hr]; rfl
  | cons a l => simp [parent] at h

/-- The directories above a path, from the root down. -/
def ancestors (p : Path) : List Path :=
  (List.range p.comps.length).map fun n => ⟨p.hasRoot, p.comps.take n⟩

theorem ne_of_mem_ancestors {p d : Path} (h : d ∈ p.ancestors) : d ≠ p := by
  obtain ⟨n, hn, rfl⟩ := List.mem_map.mp h
  intro e
  have := congrArg (fun x : Path => x.comps.length) e
  simp only [List.length_take] at this
  have := List.mem_range.mp hn
  omega

theorem parent_mem_ancestors {p d : Path} (h : p.parent = some d) : d ∈ p.ancestors := by
  have hlen := parent_length h
  refine List.mem_map.mpr ⟨p.comps.length - 1, List.mem_range.mpr (by omega), ?_⟩
  unfold parent at h
  split at h
  · cases h
  · cases h
    rw [List.dropLast_eq_take]

/-- Being above is being the parent or above the parent. -/
theorem mem_ancestors_iff {a p q : Path} (h : p.parent = some q) :
    a ∈ p.ancestors ↔ a = q ∨ a ∈ q.ancestors := by
  have hlen := parent_length h
  have hq : q = ⟨p.hasRoot, p.comps.take q.comps.length⟩ := by
    unfold parent at h
    split at h
    · cases h
    · cases h
      simp [List.dropLast_eq_take]
  have htake : ∀ n ≤ q.comps.length, q.comps.take n = p.comps.take n := by
    intro n hn
    conv_lhs => rw [hq]
    rw [List.take_take, Nat.min_eq_left hn]
  simp only [ancestors, List.mem_map, List.mem_range]
  constructor
  · rintro ⟨n, hn, rfl⟩
    rcases Nat.lt_or_ge n q.comps.length with hlt | hge
    · exact Or.inr ⟨n, hlt, by rw [htake n (Nat.le_of_lt hlt), parent_hasRoot h]⟩
    · have : n = q.comps.length := by omega
      subst this
      exact Or.inl hq.symm
  · rintro (rfl | ⟨n, hn, rfl⟩)
    · exact ⟨a.comps.length, by omega, hq.symm⟩
    · exact ⟨n, by omega, by rw [htake n (Nat.le_of_lt hn), parent_hasRoot h]⟩

theorem length_lt_of_mem_ancestors {a p : Path} (h : a ∈ p.ancestors) :
    a.comps.length < p.comps.length := by
  obtain ⟨n, hn, rfl⟩ := List.mem_map.mp h
  have := List.mem_range.mp hn
  simp only [List.length_take]
  omega

theorem ancestors_trans {a b c : Path} (h₁ : a ∈ b.ancestors) (h₂ : b ∈ c.ancestors) :
    a ∈ c.ancestors := by
  have hlen := length_lt_of_mem_ancestors h₁
  obtain ⟨n, hn, rfl⟩ := List.mem_map.mp h₂
  obtain ⟨m, hm, rfl⟩ := List.mem_map.mp h₁
  simp only [List.length_take, List.mem_range] at hn hm
  refine List.mem_map.mpr ⟨m, List.mem_range.mpr (by omega), ?_⟩
  rw [List.take_take, Nat.min_eq_left (by omega)]

/-- The root is above every other absolute path. -/
theorem root_mem_ancestors {p : Path} (hr : p.hasRoot = true) (h : p ≠ root) :
    root ∈ p.ancestors := by
  refine List.mem_map.mpr ⟨0, List.mem_range.mpr ?_, by simp [root, hr]⟩
  obtain ⟨r, c⟩ := p
  cases c with
  | nil => exact absurd (by simp only at hr; rw [hr]; rfl) h
  | cons x l => simp

end Path

/-! ## 2. Inode data and pending operations -/

/-- Simulated time since the epoch, in nanoseconds. -/
abbrev Duration := Nat

abbrev RawFd := Nat

/-- Base value of simulated file descriptors, far above any real one. -/
def simFdBase : RawFd := 2 ^ 30

/-- A change that is not durable yet. -/
inductive PendingOp where
  | createFile (path : Path) (time : Duration) (mode : Nat)
  | createDir (path : Path) (time : Duration) (mode : Nat)
  | createSymlink (path target : Path) (time : Duration)
  | createHardLink (path target : Path) (time : Duration)
  | write (path : Path) (offset : Nat) (data : List UInt8) (time : Duration)
  | setLen (path : Path) (len : Nat) (time : Duration)
  | setPermissions (path : Path) (mode : Nat) (time : Duration)
  | rename (src dst : Path)
  | removeFile (path : Path)
  | removeDir (path : Path)
  deriving DecidableEq, Repr

structure FileData where
  content : List UInt8
  crtime : Duration
  mtime : Duration
  ctime : Duration
  mode : Nat
  nlink : Nat
  deriving DecidableEq, Repr

/-- An empty file with one name. -/
def FileData.withMode (now : Duration) (mode : Nat) : FileData := ⟨[], now, now, now, mode, 1⟩

/-- The bytes a write leaves in a file. -/
def FileData.applyWrite (f : FileData) (offset : Nat) (data : List UInt8) (time : Duration) :
    FileData :=
  { f with content := Buffer.writeAt f.content offset data, mtime := time, ctime := time }

/-- `content.resize(len, 0)`. -/
def FileData.applySetLen (f : FileData) (len : Nat) (time : Duration) : FileData :=
  { f with content := Buffer.resize f.content len, mtime := time, ctime := time }

structure DirData where
  crtime : Duration
  mtime : Duration
  ctime : Duration
  mode : Nat
  deriving DecidableEq, Repr

def DirData.withMode (now : Duration) (mode : Nat) : DirData := ⟨now, now, now, mode⟩

def DirData.new (now : Duration) : DirData := DirData.withMode now 0o755

structure SymlinkData where
  target : Path
  crtime : Duration
  mtime : Duration
  ctime : Duration
  deriving DecidableEq, Repr

def SymlinkData.new (target : Path) (now : Duration) : SymlinkData := ⟨target, now, now, now⟩

/-- The pages believed hot, least recently touched first: `(file path, page index)`. -/
structure PageCache where
  pages : IndexMap (Path × Nat) Unit
  pageSize : Nat
  maxPages : Nat

/-- Forget every page of one file. -/
def PageCache.invalidateFile (c : PageCache) (path : Path) : PageCache :=
  { c with pages := c.pages.retainKeys (fun k => k.1 ≠ path) }

/-- Look a page up and make it the most recent one; `evict` is the outcome of the random eviction. -/
def PageCache.access (c : PageCache) (path : Path) (offset : Nat) (evict : Bool) :
    PageCache × Bool :=
  let key := (path, offset / c.pageSize)
  if evict then ({ c with pages := c.pages.swapRemove key }, false)
  else if c.pages.contains key then
    ({ c with pages := (c.pages.swapRemove key).insert key () }, true)
  else (c, false)

/-- Drop the oldest pages until fewer than `maxPages` are left; the fuel is the number of pages. -/
def PageCache.evictOldest (maxPages : Nat) :
    Nat → IndexMap (Path × Nat) Unit → IndexMap (Path × Nat) Unit
  | 0, pages => pages
  | fuel + 1, pages =>
    if pages.keys.length < maxPages then pages
    else
      match pages.keys with
      | key :: _ => evictOldest maxPages fuel (pages.shiftRemove key)
      | [] => pages

/-- Make a page the most recent one.  With no room for any page the loop that makes room does not
end. -/
def PageCache.insert (c : PageCache) (path : Path) (offset : Nat) : Option PageCache :=
  if c.maxPages = 0 then none
  else
    let key := (path, offset / c.pageSize)
    let pages := evictOldest c.maxPages c.pages.keys.length c.pages
    some { c with pages := (pages.swapRemove key).insert key () }

/-! ## 3. The filesystem state -/

/-- The settings of `FsConfig` that the modelled operations read.  The probabilities are not
among them: a fault decision is an argument of the operation that makes it. -/
structure FsConfig where
  capacity : Option Nat
  blockSize : Option Nat
  directIoAlignment : Nat
  pageCache : Option (Nat × Nat)

/-- `FsConfig::default`. -/
def FsConfig.default : FsConfig := ⟨none, none, 512, none⟩

structure FsState where
  persistedFiles : IndexMap Path FileData
  persistedDirs : IndexMap Path DirData
  persistedSymlinks : IndexMap Path SymlinkData
  /-- Paths with durable directory entries. -/
  syncedEntries : IndexMap Path Unit
  pending : List PendingOp
  openHandles : IndexMap RawFd Path
  directIoFds : IndexMap RawFd Unit
  nextFd : RawFd
  now : Duration
  capacity : Option Nat
  blockSize : Option Nat
  directIoAlignment : Nat
  pageCache : Option PageCache

/-- What a name can stand for. -/
inductive EntryKind where
  | file
  | directory
  | symlink
  deriving DecidableEq, Repr

/-- The errors of the filesystem layer. -/
inductive FsError where
  | noSuchFile
  | fileExists
  | notEmpty
  | isADirectory
  | notADirectory
  | noSpace
  deriving DecidableEq, Repr

/-- The message each error carries. -/
def FsError.text : FsError → String
  | .noSuchFile => "No such file or directory"
  | .fileExists => "File exists"
  | .notEmpty => "Directory not empty"
  | .isADirectory => "Is a directory"
  | .notADirectory => "Not a directory"
  | .noSpace => "No space left on device"

/-- A state-changing call: the state afterwards, and whether it succeeded. -/
abbrev FsResult := FsState × Except FsError Unit

/-- Did the call return `Ok`? -/
def FsResult.isOk (r : FsResult) : Bool := r.2.toBool

namespace FsState

/-- A fresh filesystem: the root directory, and its entry durable. -/
def new (config : FsConfig) : FsState where
  persistedFiles := IndexMap.empty
  persistedDirs := IndexMap.empty.insert Path.root (DirData.new 0)
  persistedSymlinks := IndexMap.empty
  syncedEntries := IndexMap.empty.insert Path.root ()
  pending := []
  openHandles := IndexMap.empty
  directIoFds := IndexMap.empty
  nextFd := simFdBase
  now := 0
  capacity := config.capacity
  blockSize := config.blockSize
  directIoAlignment := config.directIoAlignment
  pageCache := config.pageCache.map fun c => ⟨IndexMap.empty, c.1, c.2⟩

end FsState

end Turmoil.Fs
