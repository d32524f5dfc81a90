/-
# The operations of `FsState`

One definition per method, in the order of `turmoil-fs/src/lib.rs`.  A method that takes
`&mut self` returns the state after the call.  The three readers at the heart of the model are

* `entryKind`, which walks the pending queue once, backwards, from a path to the operation
  that decides what is there;
* `resolveContentPath`, which finds the persisted name a file's bytes live under, first through
  pending hard links and then backwards through pending renames;
* `fileLen` / `readFile`, which lay the pending writes addressed to that name over the
  persisted bytes.

`resolveContentPath` recurses through hard links without a measure, so its model carries fuel
and returns `none` where the recursion of the source does not come back.
-/
import Turmoil.Fs.State

namespace Turmoil.Fs

open Buffer

namespace FsState

/-! ## 1. Capacity -/

/-- Bytes used: persisted files, plus what each pending operation would add to its file. -/
def usedBytes (s : FsState) : Nat :=
  let persistedLen (path : Path) : Nat :=
    ((s.persistedFiles.get? path).map (·.content.length)).getD 0
  s.pending.foldl (fun total op =>
    match op with
    | .write path offset data _ =>
      if offset + data.length > persistedLen path
      then total + (offset + data.length - persistedLen path) else total
    | .setLen path len _ =>
      if len > persistedLen path then total + (len - persistedLen path) else total
    | _ => total) ((s.persistedFiles.values.map (·.content.length)).sum)

/-- Would `additionalBytes` more still fit?  The sum saturates at `u64::MAX`. -/
def checkSpace (s : FsState) (additionalBytes : Nat) : Except FsError Unit :=
  match s.capacity with
  | none => .ok ()
  | some cap => if min (s.usedBytes + additionalBytes) (2 ^ 64 - 1) > cap then .error .noSpace
      else .ok ()

/-- A fresh descriptor, and the state that has handed it out. -/
def allocFd (s : FsState) : FsState × RawFd := ({ s with nextFd := s.nextFd + 1 }, s.nextFd)

/-! ## 2. Making operations durable -/

/-- Apply a single operation to the persisted maps. -/
def applyOpToPersisted (s : FsState) : PendingOp → FsState
  | .createFile path time mode =>
    { s with persistedFiles := s.persistedFiles.orInsert path (FileData.withMode time mode) }
  | .createDir path time mode =>
    { s with persistedDirs := s.persistedDirs.orInsert path (DirData.withMode time mode) }
  | .createSymlink path target time =>
    { s with
      persistedSymlinks := s.persistedSymlinks.orInsert path (SymlinkData.new target time) }
  | .createHardLink path target time =>
    -- the link gets a COPY of the target's data, and both get the new link count
    match s.persistedFiles.get? target with
    | none => s
    | some t =>
      let files := s.persistedFiles.modify target
        (fun f => { f with nlink := t.nlink + 1, ctime := time })
      { s with persistedFiles := files.insert path { t with nlink := t.nlink + 1 } }
  | .write path offset data time =>
    { s with
      persistedFiles := s.persistedFiles.modify path (fun f => f.applyWrite offset data time) }
  | .setLen path len time =>
    { s with persistedFiles := s.persistedFiles.modify path (fun f => f.applySetLen len time) }
  | .setPermissions path mode time =>
    if s.persistedFiles.contains path then
      { s with
        persistedFiles := s.persistedFiles.modify path (fun f => { f with mode := mode, ctime := time }) }
    else
      { s with
        persistedDirs := s.persistedDirs.modify path (fun f => { f with mode := mode, ctime := time }) }
  | .rename src dst =>
    match s.persistedFiles.get? src with
    | some d => { s with persistedFiles := (s.persistedFiles.swapRemove src).insert dst d }
    | none =>
      match s.persistedDirs.get? src with
      | some d => { s with persistedDirs := (s.persistedDirs.swapRemove src).insert dst d }
      | none =>
        match s.persistedSymlinks.get? src with
        | some d =>
          { s with persistedSymlinks := (s.persistedSymlinks.swapRemove src).insert dst d }
        | none => s
  | .removeFile path =>
    { s with
      persistedFiles := s.persistedFiles.swapRemove path
      persistedSymlinks := s.persistedSymlinks.swapRemove path }
  | .removeDir path => { s with persistedDirs := s.persistedDirs.swapRemove path }

/-! ## 3. Crash -/

/-- One torn write: the part of a pending write that reaches the disk when `surviving` of its
blocks do. -/
def tornWrite (s : FsState) (blockSize surviving : Nat) : PendingOp → Option PendingOp
  | .write path offset data time =>
    let totalBlocks := (data.length + blockSize - 1) / blockSize
    let blocks := min surviving totalBlocks
    if s.syncedEntries.contains path = false ∨ totalBlocks = 0 ∨ blocks = 0 then none
    else some (.write path offset (data.take (min (blocks * blockSize) data.length)) time)
  | _ => none

/-- Apply a random number of blocks of every pending write; `surviving i` is what the random
generator drew for the `i`-th pending operation. -/
def applyTornWrites (s : FsState) (blockSize : Nat) (surviving : Nat → Nat) : FsState :=
  ((s.pending.zipIdx).filterMap fun x => s.tornWrite blockSize (surviving x.2) x.1).foldl
    applyOpToPersisted s

/-- Everything pending is lost, and so is every inode without a durable directory entry. -/
def crash (s : FsState) (surviving : Nat → Nat) : FsState :=
  let s := match s.blockSize with
    | some b => s.applyTornWrites b surviving
    | none => s
  { s with
    pending := []
    persistedFiles := s.persistedFiles.retainKeys s.syncedEntries.contains
    persistedDirs := s.persistedDirs.retainKeys s.syncedEntries.contains
    persistedSymlinks := s.persistedSymlinks.retainKeys s.syncedEntries.contains }

/-! ## 4. Resolving names -/

/-- Follow the pending renames backwards from a path. -/
def resolvePersistedPath (s : FsState) (path : Path) : Path :=
  s.pending.foldr (fun op current =>
    match op with
    | .rename src dst => if dst = current then src else current
    | _ => current) path

/-- The target of a hard link at `path`. -/
def hardLinkAt (path : Path) : PendingOp → Option Path
  | .createHardLink p target _ => if p = path then some target else none
  | _ => none

/-- The target of the FIRST pending hard link at `path`. -/
def resolveHardlinkTarget (s : FsState) (path : Path) : Option Path :=
  s.pending.findSome? (hardLinkAt path)

/-- `resolve_content_path` with a bound on its recursion depth. -/
def resolveContentPathIn (s : FsState) : Nat → Path → Option Path
  | 0, _ => none
  | fuel + 1, path =>
    match s.resolveHardlinkTarget path with
    | some target => s.resolveContentPathIn fuel target
    | none => some (s.resolvePersistedPath path)

/-- The name a file's bytes are persisted under; `none` when the hard links form a cycle and
the recursion of the source never returns. -/
def resolveContentPath (s : FsState) (path : Path) : Option Path :=
  s.resolveContentPathIn (s.pending.length + 1) path

/-- The kind a path has in the persisted maps. -/
def persistedKind (s : FsState) (path : Path) : Option EntryKind :=
  if s.persistedFiles.contains path then some .file
  else if s.persistedDirs.contains path then some .directory
  else if s.persistedSymlinks.contains path then some .symlink
  else none

/-- The walk of `entry_kind`: the pending operations newest first, over the kinds `base`. -/
def entryKindFrom (base : Path → Option EntryKind) : List PendingOp → Path → Option EntryKind
  | [], path => base path
  | op :: older, path =>
    match op with
    | .createFile p _ _ => if p = path then some .file else entryKindFrom base older path
    | .createHardLink p _ _ => if p = path then some .file else entryKindFrom base older path
    | .createDir p _ _ => if p = path then some .directory else entryKindFrom base older path
    | .createSymlink p _ _ => if p = path then some .symlink else entryKindFrom base older path
    | .removeFile p => if p = path then none else entryKindFrom base older path
    | .removeDir p => if p = path then none else entryKindFrom base older path
    | .rename src dst =>
      if src = path then none
      else if dst = path then entryKindFrom base older src
      else entryKindFrom base older path
    | _ => entryKindFrom base older path

/-- What is at `path` now. -/
def entryKind (s : FsState) (path : Path) : Option EntryKind :=
  entryKindFrom s.persistedKind s.pending.reverse path

def fileExists (s : FsState) (path : Path) : Bool := s.entryKind path = some .file
def dirExists (s : FsState) (path : Path) : Bool := s.entryKind path = some .directory
def symlinkExists (s : FsState) (path : Path) : Bool := s.entryKind path = some .symlink

/-- Do the pending renames carry `src` to `dst`? -/
def pathRenamedTo (s : FsState) (src dst : Path) : Bool :=
  s.pending.foldl (fun current op =>
    match op with
    | .rename f t => if f = current then t else current
    | _ => current) src = dst

/-- Is a pending data operation on `p` part of the content stored under `content`? -/
def addressesContent (s : FsState) (p content : Path) : Bool :=
  decide (p = content) || s.pathRenamedTo p content

/-- The length after the pending operations addressed to `content`. -/
def fileLenAt (s : FsState) (content : Path) : Nat :=
  s.pending.foldl (fun len op =>
    match op with
    | .write p offset data _ =>
      if s.addressesContent p content then
        (if offset + data.length > len then offset + data.length else len)
      else len
    | .setLen p newLen _ => if s.addressesContent p content then newLen else len
    | _ => len) (((s.persistedFiles.get? content).map (·.content.length)).getD 0)

/-- Current length of the file at `path`, persisted and pending. -/
def fileLen (s : FsState) (path : Path) : Option Nat :=
  (s.resolveContentPath path).map s.fileLenAt

/-! ## 5. Reading -/

/-- Lay one pending write over a buffer that shows the file from `offset` on. -/
def overlayWrite (buf : List UInt8) (offset writeOff : Nat) (data : List UInt8) : List UInt8 :=
  if writeOff < offset + buf.length ∧ writeOff + data.length > offset then
    let overlapStart := max writeOff offset
    let overlapEnd := min (writeOff + data.length) (offset + buf.length)
    let srcOffset := overlapStart - writeOff
    copyAt buf (overlapStart - offset)
      ((data.drop srcOffset).take (overlapEnd - overlapStart))
  else buf

/-- The bytes `[offset, offset + toRead)` of the content stored under `content`: zeros, then the
persisted bytes, then the pending writes in order.  Pending truncations are not looked at. -/
def readFileAt (s : FsState) (content : Path) (offset toRead : Nat) : List UInt8 :=
  let zeros : List UInt8 := List.replicate toRead 0
  let buf := match s.persistedFiles.get? content with
    | none => zeros
    | some f =>
      let persistedEnd := min f.content.length (offset + toRead)
      if offset < persistedEnd then
        copyAt zeros 0 ((f.content.drop offset).take (persistedEnd - offset))
      else zeros
  s.pending.foldl (fun buf op =>
    match op with
    | .write p writeOff data _ =>
      if s.addressesContent p content then overlayWrite buf offset writeOff data else buf
    | _ => buf) buf

/-- Read into a buffer of length `bufLen`; the result is the filled part of it. -/
def readFile (s : FsState) (path : Path) (bufLen offset : Nat) : Option (List UInt8) :=
  if bufLen = 0 then some []
  else
    match s.fileLen path with
    | none => none
    | some len =>
      if offset ≥ len then some []
      else
        match s.resolveContentPath path with
        | none => none
        | some content => some (s.readFileAt content offset (min bufLen (len - offset)))

/-! ## 6. Namespace operations -/

/-- Append to the pending queue. -/
def push (s : FsState) (op : PendingOp) : FsState := { s with pending := s.pending ++ [op] }

/-- Forget the cached pages of a path, if there is a cache. -/
def invalidateCache (s : FsState) (path : Path) : FsState :=
  { s with pageCache := s.pageCache.map (·.invalidateFile path) }

def mkdirWithMode (s : FsState) (path : Path) (time : Duration) (mode : Nat) : FsResult :=
  let parentMissing := match path.parent with
    | some parent => !parent.isEmpty && !s.dirExists parent
    | none => false
  if parentMissing then (s, .error .noSuchFile)
  else if s.dirExists path || s.fileExists path || s.symlinkExists path then
    (s, .error .fileExists)
  else (s.push (.createDir path time mode), .ok ())

def mkdir (s : FsState) (path : Path) (time : Duration) : FsResult :=
  s.mkdirWithMode path time 0o755

/-- Does the directory have children?  Persisted names and pending creations are looked at;
pending hard links and the targets of pending renames are not. -/
def dirHasChildren (s : FsState) (path : Path) : Bool :=
  s.persistedFiles.keys.any (fun p => p.parent = some path && s.fileExists p)
  || s.persistedDirs.keys.any (fun p => p.parent = some path && s.dirExists p)
  || s.persistedSymlinks.keys.any (fun p => p.parent = some path && s.symlinkExists p)
  || s.pending.any (fun op =>
    match op with
    | .createFile p _ _ => p.parent = some path && s.fileExists p
    | .createDir p _ _ => p.parent = some path && s.dirExists p
    | .createSymlink p _ _ => p.parent = some path && s.symlinkExists p
    | _ => false)

def rmdir (s : FsState) (path : Path) : FsResult :=
  if !s.dirExists path then (s, .error .noSuchFile)
  else if s.dirHasChildren path then (s, .error .notEmpty)
  else (s.push (.removeDir path), .ok ())

def parentExists (s : FsState) (path : Path) : Bool :=
  match path.parent with
  | none => true
  | some parent => parent.isEmpty || s.dirExists parent

def unlink (s : FsState) (path : Path) : FsResult :=
  if !s.fileExists path && !s.symlinkExists path then (s, .error .noSuchFile)
  else ((s.invalidateCache path).push (.removeFile path), .ok ())

def rename (s : FsState) (src dst : Path) : FsResult :=
  if !s.parentExists dst then (s, .error .noSuchFile)
  else if s.fileExists src then
    if s.dirExists dst then (s, .error .isADirectory)
    else (s.push (.rename src dst), .ok ())
  else if s.dirExists src then
    if s.fileExists dst || s.symlinkExists dst then (s, .error .notADirectory)
    else if s.dirExists dst && s.dirHasChildren dst then (s, .error .notEmpty)
    else (s.push (.rename src dst), .ok ())
  else if s.symlinkExists src then
    if s.dirExists dst then (s, .error .isADirectory)
    else (s.push (.rename src dst), .ok ())
  else (s, .error .noSuchFile)

/-! ## 7. Syncing -/

/-- Is this a data operation on exactly this path? -/
def isDataOf (path : Path) : PendingOp → Bool
  | .write p _ _ _ => p = path
  | .setLen p _ _ => p = path
  | _ => false

/-- Creation time and mode of the first pending creation of `path`. -/
def pendingCreation (ops : List PendingOp) (path : Path) : Duration × Nat :=
  (ops.findSome? fun op =>
    match op with
    | .createFile p time mode => if p = path then some (time, mode) else none
    | _ => none).getD (0, 0o644)

/-- The common body of `sync_file` and `sync_file_data`: flush the data operations recorded
under this very path, making up an inode for it if there is none. -/
def flushFile (s : FsState) (path : Path) : FsResult :=
  if !s.fileExists path then (s, .error .noSuchFile)
  else
    let toFlush := s.pending.filter (isDataOf path)
    let toKeep := s.pending.filter (fun op => !isDataOf path op)
    let files := if s.persistedFiles.contains path then s.persistedFiles
      else
        let (crtime, mode) := pendingCreation toKeep path
        s.persistedFiles.insert path (FileData.withMode crtime mode)
    (toFlush.foldl applyOpToPersisted { s with persistedFiles := files, pending := toKeep },
      .ok ())

/-- fsync of a file: its data, not its directory entry. -/
def syncFile (s : FsState) (path : Path) : FsResult := s.flushFile path

/-- fdatasync of a file. -/
def syncFileData (s : FsState) (path : Path) : FsResult := s.flushFile path

/-- Does `sync_dir path` flush this operation? -/
def affectsDir (path : Path) : PendingOp → Bool
  | .createDir p _ _ => decide (p = path) || decide (p.parent = some path)
  | .createFile p _ _ => p.parent = some path
  | .createSymlink p _ _ => p.parent = some path
  | .createHardLink p _ _ => p.parent = some path
  | .removeFile p => p.parent = some path
  | .removeDir p => p.parent = some path
  | .rename src dst => decide (src.parent = some path) || decide (dst.parent = some path)
  | _ => false

/-- What flushing one operation in `sync_dir path` does to the set of durable entries. -/
def syncEntry (path : Path) (entries : IndexMap Path Unit) : PendingOp → IndexMap Path Unit
  | .createFile p _ _ => if p.parent = some path then entries.insert p () else entries
  | .createDir p _ _ =>
    if p = path ∨ p.parent = some path then entries.insert p () else entries
  | .createSymlink p _ _ => if p.parent = some path then entries.insert p () else entries
  | .createHardLink p _ _ => if p.parent = some path then entries.insert p () else entries
  | .removeFile p => if p.parent = some path then entries.swapRemove p else entries
  | .removeDir p => if p.parent = some path then entries.swapRemove p else entries
  | .rename src dst =>
    -- only the side that lies in the synced directory is recorded
    let entries := if src.parent = some path then entries.swapRemove src else entries
    if dst.parent = some path then entries.insert dst () else entries
  | _ => entries

/-- Does flushing this operation modify the synced directory itself? -/
def modifiesDir (path : Path) : PendingOp → Bool
  | .createDir p _ _ => decide (p ≠ path) && decide (p.parent = some path)
  | op => affectsDir path op

/-- One round of the flush loop of `sync_dir`. -/
def flushDirOp (path : Path) (s : FsState) (op : PendingOp) : FsState :=
  { s with syncedEntries := syncEntry path s.syncedEntries op }.applyOpToPersisted op

/-- fsync of a directory: the entries in it, and its own creation. -/
def syncDir (s : FsState) (path : Path) (time : Duration) : FsResult :=
  if !s.dirExists path then (s, .error .noSuchFile)
  else
    let toFlush := s.pending.filter (affectsDir path)
    let toKeep := s.pending.filter (fun op => !affectsDir path op)
    let s' := toFlush.foldl (flushDirOp path) { s with pending := toKeep }
    let s' := if toFlush.any (modifiesDir path) then
        { s' with
          persistedDirs :=
            s'.persistedDirs.modify path (fun d => { d with mtime := time, ctime := time }) }
      else s'
    (s', .ok ())

/-! ## 8. Data operations, creations and links -/

def writeFile (s : FsState) (path : Path) (offset : Nat) (data : List UInt8) (time : Duration) :
    FsState :=
  if data.isEmpty then s else s.push (.write path offset data time)

def setFileLen (s : FsState) (path : Path) (len : Nat) (time : Duration) : FsState :=
  (s.invalidateCache path).push (.setLen path len time)

def createFileWithMode (s : FsState) (path : Path) (time : Duration) (mode : Nat) : FsState :=
  s.push (.createFile path time mode)

def createSymlink (s : FsState) (path target : Path) (time : Duration) : FsResult :=
  if !s.parentExists path then (s, .error .noSuchFile)
  else if s.fileExists path || s.dirExists path || s.symlinkExists path then
    (s, .error .fileExists)
  else (s.push (.createSymlink path target time), .ok ())

def createHardLink (s : FsState) (path target : Path) (time : Duration) : FsResult :=
  if !s.parentExists path then (s, .error .noSuchFile)
  else if !s.fileExists target then (s, .error .noSuchFile)
  else if s.fileExists path || s.dirExists path || s.symlinkExists path then
    (s, .error .fileExists)
  else (s.push (.createHardLink path target time), .ok ())

/-- The newest pending decision about the symlink at `path`, over the persisted symlinks. -/
def readLinkFrom (base : Option Path) : List PendingOp → Path → Option Path
  | [], _ => base
  | op :: older, path =>
    match op with
    | .createSymlink p target _ =>
      if p = path then some target else readLinkFrom base older path
    | .removeFile p => if p = path then none else readLinkFrom base older path
    | _ => readLinkFrom base older path

/-- Target of the symlink at `path`.  `resolve_symlink_path` is the same backward walk over the
renames as `resolve_persisted_path`. -/
def readLink (s : FsState) (path : Path) : Except FsError Path :=
  let original := s.resolvePersistedPath path
  match readLinkFrom ((s.persistedSymlinks.get? original).map (·.target)) s.pending.reverse
      original with
  | some target => .ok target
  | none => .error .noSuchFile

def setPermissions (s : FsState) (path : Path) (mode : Nat) (time : Duration) : FsResult :=
  if !s.fileExists path && !s.dirExists path then (s, .error .noSuchFile)
  else (s.push (.setPermissions path mode time), .ok ())

/-- The newest pending decision about the mode of `path`: a `set_permissions`, or a creation that
`created` takes the mode of. -/
def modeFrom (created : PendingOp → Option (Path × Nat)) (base : Option Nat) :
    List PendingOp → Path → Option Nat
  | [], _ => base
  | op :: older, path =>
    match op with
    | .setPermissions p mode _ => if p = path then some mode else modeFrom created base older path
    | op =>
      match created op with
      | some (p, mode) => if p = path then some mode else modeFrom created base older path
      | none => modeFrom created base older path

/-- Permissions of a file; renames and hard links are not looked at. -/
def fileMode (s : FsState) (path : Path) : Option Nat :=
  modeFrom (fun op =>
    match op with
    | .createFile p _ mode => some (p, mode)
    | _ => none) ((s.persistedFiles.get? path).map (·.mode)) s.pending.reverse path

/-- Permissions of a directory. -/
def dirMode (s : FsState) (path : Path) : Option Nat :=
  modeFrom (fun op =>
    match op with
    | .createDir p _ mode => some (p, mode)
    | _ => none) ((s.persistedDirs.get? path).map (·.mode)) s.pending.reverse path

/-! ## 9. Listing -/

/-- The names a listing of `path` looks at, in the order it collects them. -/
def listedNames (s : FsState) (path : Path) : List Path :=
  s.persistedFiles.keys.filter (fun p => p.parent = some path && s.fileExists p)
  ++ s.persistedDirs.keys.filter (fun p => p.parent = some path && s.dirExists p)
  ++ s.persistedSymlinks.keys.filter (fun p => p.parent = some path && s.symlinkExists p)
  ++ s.pending.filterMap (fun op =>
    match op with
    | .createFile p _ _ => if p.parent = some path && s.fileExists p then some p else none
    | .createDir p _ _ => if p.parent = some path && s.dirExists p then some p else none
    | .createSymlink p _ _ => if p.parent = some path && s.symlinkExists p then some p else none
    | .rename _ dst =>
      if dst.parent = some path && (s.fileExists dst || s.dirExists dst || s.symlinkExists dst)
      then some dst else none
    | _ => none)

/-- The entries of a directory, each once.  The source collects them in a hash set, so their
order means nothing. -/
def dirEntries (s : FsState) (path : Path) : List Path := (s.listedNames path).dedup

end FsState

end Turmoil.Fs
