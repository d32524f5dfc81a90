/-
# The `std::fs` shim

The functions a simulated program calls: each is a few calls of `FsState` methods, with the
checks the shim adds.  Where the source draws a random number (an injected I/O error, a
background flush after a write) the outcome is an argument; where it iterates over a hash set
(`remove_dir_all`) the order is an argument too.
-/
import Turmoil.Fs.History

namespace Turmoil.Fs

/-! ## 1. Errors and handles -/

/-- The `io::ErrorKind`s the shim uses. -/
inductive IoErrorKind where
  | notFound
  | alreadyExists
  | permissionDenied
  | invalidInput
  | other
  deriving DecidableEq, Repr

/-- How a shim call can fail.  `overflow` is the process running out of stack: the recursion of
`resolve_content_path` on a cycle of hard links. -/
inductive ShimError where
  | io (kind : IoErrorKind) (message : String)
  | overflow
  deriving DecidableEq, Repr

/-- `Error::other` of a filesystem error. -/
def FsError.other (e : FsError) : ShimError := .io .other e.text

abbrev ShimResult (α : Type) := FsState × Except ShimError α

/-- Report a filesystem error through `f`. -/
def FsResult.mapErr (r : FsResult) (f : FsError → ShimError) : ShimResult Unit :=
  match r with
  | (s, .ok ()) => (s, .ok ())
  | (s, .error e) => (s, .error (f e))

/-- A `File`: a descriptor and the modes it was opened with. -/
structure File where
  fd : RawFd
  readable : Bool
  writable : Bool
  appendMode : Bool
  directIo : Bool
  deriving DecidableEq, Repr

structure OpenOptions where
  read : Bool
  write : Bool
  append : Bool
  truncate : Bool
  create : Bool
  createNew : Bool
  mode : Nat
  customFlags : BitVec 32
  directIo : Bool
  deriving DecidableEq, Repr

/-- `OpenOptions::default`. -/
def OpenOptions.default : OpenOptions :=
  ⟨false, false, false, false, false, false, 0o644, 0, false⟩

/-- `O_DIRECT`. -/
def oDirect : BitVec 32 := 0x4000

/-! ## 2. The calls -/

namespace Shim

def createDir (s : FsState) (path : Path) (now : Duration) : ShimResult Unit :=
  (s.mkdir path now).mapErr FsError.other

/-- The directories `create_dir_all` finds missing, from the path upwards; the fuel is the
number of components. -/
def missingDirs (s : FsState) : Nat → Path → List Path
  | 0, _ => []
  | fuel + 1, p =>
    if p.isEmpty then []
    else if s.dirExists p then []
    else p :: match p.parent with
      | some parent => missingDirs s fuel parent
      | none => []

/-- Create the listed directories one after the other, skipping what is a file or a directory
already, until one fails. -/
def createEach (now : Duration) : FsState → List Path → ShimResult Unit
  | s, [] => (s, .ok ())
  | s, dir :: dirs =>
    if s.dirExists dir || s.fileExists dir then createEach now s dirs
    else
      match s.mkdir dir now with
      | (s, .ok ()) => createEach now s dirs
      | (s, .error e) => (s, .error e.other)

def createDirAll (s : FsState) (path : Path) (now : Duration) : ShimResult Unit :=
  createEach now s (missingDirs s (path.comps.length + 1) path).reverse

def removeDir (s : FsState) (path : Path) : ShimResult Unit := (s.rmdir path).mapErr FsError.other

def syncDir (s : FsState) (path : Path) (now : Duration) : ShimResult Unit :=
  (s.syncDir path now).mapErr FsError.other

def removeFile (s : FsState) (path : Path) : ShimResult Unit :=
  (s.unlink path).mapErr fun e => .io .notFound e.text

def rename (s : FsState) (src dst : Path) : ShimResult Unit :=
  (s.rename src dst).mapErr FsError.other

def symlink (s : FsState) (original link : Path) (now : Duration) : ShimResult Unit :=
  (s.createSymlink link original now).mapErr FsError.other

def hardLink (s : FsState) (original link : Path) (now : Duration) : ShimResult Unit :=
  (s.createHardLink link original now).mapErr FsError.other

/-- The path `open` works on: one symlink is followed. -/
def openTarget (s : FsState) (path : Path) : Except ShimError Path :=
  if s.symlinkExists path then
    match s.readLink path with
    | .ok target => .ok target
    | .error e => .error (.io .notFound e.text)
  else .ok path

/-- Truncate if asked to, and hand out a descriptor. -/
def finishOpen (s : FsState) (o : OpenOptions) (resolved : Path) (now : Duration) :
    ShimResult File :=
  let s := if o.truncate && o.write then s.setFileLen resolved 0 now else s
  let (s, fd) := s.allocFd
  let s := { s with openHandles := s.openHandles.insert fd resolved }
  let directIo := o.directIo || (o.customFlags &&& oDirect) != 0
  let s := if directIo then { s with directIoFds := s.directIoFds.insert fd () } else s
  (s, .ok ⟨fd, o.read, o.write || o.append, o.append, directIo⟩)

/-- `OpenOptions::open`. -/
def openFile (s : FsState) (o : OpenOptions) (path : Path) (now : Duration) : ShimResult File :=
  match openTarget s path with
  | .error e => (s, .error e)
  | .ok resolved =>
    if o.createNew && s.fileExists resolved then
      (s, .error (.io .alreadyExists "file already exists"))
    else if !s.fileExists resolved then
      if o.create || o.createNew then
        if !s.parentExists resolved then
          (s, .error (.io .notFound "parent directory not found"))
        else finishOpen (s.createFileWithMode resolved now o.mode) o resolved now
      else (s, .error (.io .notFound "file not found"))
    else finishOpen s o resolved now

/-- The path a descriptor stands for. -/
def handlePath (s : FsState) (f : File) : Except ShimError Path :=
  match s.openHandles.get? f.fd with
  | some path => .ok path
  | none => .error (.io .notFound "file handle not found")

/-- `File::write_at_internal`.  `ptrAligned` says whether the buffer's address is aligned,
`ioError` whether an error was injected, `flush` whether the write was flushed at once. -/
def writeAt (s : FsState) (f : File) (offset : Nat) (buf : List UInt8) (ptrAligned ioError flush : Bool)
    (now : Duration) : ShimResult Nat :=
  if !f.writable then (s, .error (.io .permissionDenied "file not opened for writing"))
  else if f.directIo && (!ptrAligned || offset % s.directIoAlignment != 0
      || buf.length % s.directIoAlignment != 0) then
    (s, .error (.io .invalidInput ("direct I/O: buffer pointer, offset, and length must be aligned to "
      ++ toString s.directIoAlignment ++ " bytes")))
  else if ioError then (s, .error (.io .other "I/O error"))
  else
    match handlePath s f with
    | .error e => (s, .error e)
    | .ok path =>
      match s.fileLen path with
      | none => (s, .error .overflow)
      | some currentLen =>
        let additional := offset + buf.length - currentLen
        match (if additional > 0 then s.checkSpace additional else .ok ()) with
        | .error e => (s, .error e.other)
        | .ok () =>
          let s := s.writeFile path offset buf now
          let s := if flush then (s.syncFile path).1 else s
          (s, .ok buf.length)

/-- What a positional read may be told by the random generator: an injected error, the cut of a
short read, the place and the mask of a silent corruption. -/
structure ReadFaults where
  ioError : Bool
  short : Option Nat
  corrupt : Option (Nat × UInt8)
  deriving DecidableEq, Repr

/-- The value a draw from `lo..hi` stands for. -/
def drawIn (lo hi draw : Nat) : Nat := lo + draw % (hi - lo)

/-- `buf[lo..hi].fill(0)`. -/
def fillZero (buf : List UInt8) (lo hi : Nat) : List UInt8 :=
  Buffer.copyAt buf lo (List.replicate (hi - lo) 0)

/-- `buf[i] ^= mask.max(1)`. -/
def flipByte (buf : List UInt8) (i : Nat) (mask : UInt8) : List UInt8 :=
  buf.set i (buf.getD i 0 ^^^ max mask 1)

/-- `File::read_at_internal` into the buffer `buf` at address `ptr`: the state, the buffer
afterwards and the count. -/
def readAt (s : FsState) (f : File) (ptr : Nat) (buf : List UInt8) (offset : Nat)
    (faults : ReadFaults) : FsState × List UInt8 × Except ShimError Nat :=
  if !f.readable then
    (s, buf, .error (.io .permissionDenied "file not opened for reading"))
  else if f.directIo && (ptr % s.directIoAlignment != 0 || offset % s.directIoAlignment != 0
      || buf.length % s.directIoAlignment != 0) then
    (s, buf, .error (.io .invalidInput
      ("direct I/O: buffer pointer, offset, and length must be aligned to "
        ++ toString s.directIoAlignment ++ " bytes")))
  else if faults.ioError then (s, buf, .error (.io .other "I/O error"))
  else
    match handlePath s f with
    | .error e => (s, buf, .error e)
    | .ok path =>
      match s.readFile path buf.length offset with
      | none => (s, buf, .error .overflow)
      | some filled =>
        let n := filled.length
        let buf := Buffer.copyAt buf 0 filled
        let (buf, n) := match faults.short with
          | some draw =>
            if n > 1 then
              let short := drawIn 1 n draw
              (fillZero buf short n, short)
            else (buf, n)
          | none => (buf, n)
        let buf := match faults.corrupt with
          | some (draw, mask) => if n > 0 then flipByte buf (drawIn 0 n draw) mask else buf
          | none => buf
        (s, buf, .ok n)

/-- `File::sync_all`. -/
def syncAll (s : FsState) (f : File) : ShimResult Unit :=
  match handlePath s f with
  | .error e => (s, .error e)
  | .ok path => (s.syncFile path).mapErr FsError.other

/-- `File::sync_data`. -/
def syncData (s : FsState) (f : File) : ShimResult Unit :=
  match handlePath s f with
  | .error e => (s, .error e)
  | .ok path => (s.syncFileData path).mapErr FsError.other

/-- `File::set_len`; `flush` says whether the operation was flushed at once. -/
def setLen (s : FsState) (f : File) (size : Nat) (flush : Bool) (now : Duration) :
    ShimResult Unit :=
  if !f.writable then (s, .error (.io .permissionDenied "file not opened for writing"))
  else
    match handlePath s f with
    | .error e => (s, .error e)
    | .ok path =>
      let s := s.setFileLen path size now
      let s := if flush then (s.syncFile path).1 else s
      (s, .ok ())

/-- `File::try_clone`: a second descriptor of the same path. -/
def tryClone (s : FsState) (f : File) : ShimResult File :=
  match handlePath s f with
  | .error e => (s, .error e)
  | .ok path =>
    let (s, fd) := s.allocFd
    let s := { s with openHandles := s.openHandles.insert fd path }
    let s := if f.directIo then { s with directIoFds := s.directIoFds.insert fd () } else s
    (s, .ok { f with fd := fd })

/-- A `File` is dropped. -/
def dropFile (s : FsState) (f : File) : FsState :=
  { s with
    openHandles := s.openHandles.swapRemove f.fd
    directIoFds := s.directIoFds.swapRemove f.fd }

def setPermissions (s : FsState) (path : Path) (mode : Nat) (now : Duration) : ShimResult Unit :=
  (s.setPermissions path mode now).mapErr FsError.other

/-! ## 3. `remove_dir_all` -/

/-- The order in which a hash set yields its elements: some permutation. -/
structure HashOrder where
  shuffle : List Path → List Path
  perm : ∀ l, (shuffle l).Perm l

/-- The deepest name any map or pending creation mentions; no listing shows a deeper one. -/
def maxDepth (s : FsState) : Nat :=
  let depth (p : Path) : Nat := p.comps.length
  ((s.persistedFiles.keys ++ s.persistedDirs.keys ++ s.persistedSymlinks.keys
    ++ s.pending.flatMap PendingOp.names).map depth).foldr max 0

/-- What a loop over entries does with one of them, given how a subdirectory is emptied. -/
def removeEntry (empty : FsState → Path → ShimResult Unit) (s : FsState) (entry : Path) :
    ShimResult Unit :=
  if s.dirExists entry then
    match empty s entry with
    | (s, .ok ()) => (s.rmdir entry).mapErr FsError.other
    | r => r
  else if s.fileExists entry || s.symlinkExists entry then (s.unlink entry).mapErr FsError.other
  else (s, .ok ())

/-- The loop, which stops at the first error. -/
def removeEach (empty : FsState → Path → ShimResult Unit) : FsState → List Path → ShimResult Unit
  | s, [] => (s, .ok ())
  | s, entry :: entries =>
    match removeEntry empty s entry with
    | (s, .ok ()) => removeEach empty s entries
    | r => r

/-- `remove_dir_contents_recursive`; the fuel bounds the depth, `order` is the order in which the
hash set yields the entries. -/
def removeDirContents (order : HashOrder) : Nat → FsState → Path → ShimResult Unit
  | 0, s, _ => (s, .error .overflow)
  | fuel + 1, s, path =>
    removeEach (removeDirContents order fuel) s (order.shuffle (s.dirEntries path))

def removeDirAll (order : HashOrder) (s : FsState) (path : Path) : ShimResult Unit :=
  if !s.dirExists path then (s, .error (.io .notFound "directory not found"))
  else
    match removeDirContents order (maxDepth s + 1) s path with
    | (s, .ok ()) => (s.rmdir path).mapErr FsError.other
    | r => r

end Shim

/-! ## 4. Runs of shim calls -/

/-- One shim call, or a crash of the host. -/
inductive ShimOp where
  | createDir (path : Path) (now : Duration)
  | createDirAll (path : Path) (now : Duration)
  | openFile (options : OpenOptions) (path : Path) (now : Duration)
  | writeAt (file : File) (offset : Nat) (buf : List UInt8) (ptrAligned ioError flush : Bool)
    (now : Duration)
  | rename (src dst : Path)
  | removeFile (path : Path)
  | removeDir (path : Path)
  | removeDirAll (order : Shim.HashOrder) (path : Path)
  | symlink (original link : Path) (now : Duration)
  | hardLink (original link : Path) (now : Duration)
  | syncAll (file : File)
  | syncDir (path : Path) (now : Duration)
  | crash (surviving : Nat → Nat)

/-- The state after a shim call. -/
def FsState.shim (s : FsState) : ShimOp → FsState
  | .createDir path now => (Shim.createDir s path now).1
  | .createDirAll path now => (Shim.createDirAll s path now).1
  | .openFile options path now => (Shim.openFile s options path now).1
  | .writeAt file offset buf ptrAligned ioError flush now =>
    (Shim.writeAt s file offset buf ptrAligned ioError flush now).1
  | .rename src dst => (Shim.rename s src dst).1
  | .removeFile path => (Shim.removeFile s path).1
  | .removeDir path => (Shim.removeDir s path).1
  | .removeDirAll order path => (Shim.removeDirAll order s path).1
  | .symlink original link now => (Shim.symlink s original link now).1
  | .hardLink original link now => (Shim.hardLink s original link now).1
  | .syncAll file => (Shim.syncAll s file).1
  | .syncDir path now => (Shim.syncDir s path now).1
  | .crash surviving => s.crash surviving

/-- The state after a run of shim calls. -/
def FsState.shimRun (s : FsState) (ops : List ShimOp) : FsState := runAll FsState.shim s ops

end Turmoil.Fs
