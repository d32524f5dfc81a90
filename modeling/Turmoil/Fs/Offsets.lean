/-
# Offsets never overflow, where they do not

A program moves its handles with `read`, `write` and `seek`, reads and writes at offsets of its own
choosing through the shim and through the ring, and cuts files to any length.  Every one of these
calls computes with `u64` and `i64`, and what a call lets into the queue is computed with again by
every reader, by the capacity check, by every sync and by a crash.

`Session.step` is a call as it should be: the unbounded functions of the model, and positions that
are exact.  `Machine.step` is the call as the source has it, with every operation checked.  The two
are compared along every run.

* **What the sources do not check.**  `offset + len` in the two write paths, `file_len as i64 +
  offset` and `cursor as i64 + offset` in `seek`, and the sum in `used_bytes`.  A write at the last
  offset ends the process instead of being refused (`write_at_last_offset_overflows`).
* **What is safe nevertheless.**  An operation is let into the queue only after `offset + len` was
  computed, so what is queued fits, and then the readers, the syncs and the crash of every state
  reached are safe at all offsets (`Machine.Safe`).

A run is exact, and its states safe, exactly if every call of it is `Fine` (`offsets_exact_iff`): one
call is exact exactly if it is (`meets_iff`), and the host it leaves behind is `Sized`.
-/
import Turmoil.Fs.Checked
import Turmoil.Lib.Run

namespace Turmoil.Fs

open Word

/-! ## 1. Calls and their arguments -/

/-- A buffer: no slice is longer than `isize::MAX`. -/
structure Slice where
  bytes : List UInt8
  short : bytes.length < 2 ^ 63

inductive SeekFrom where
  | start (offset : UInt64)
  | fromEnd (offset : Int64)
  | current (offset : Int64)

/-- The numbers of a call are `u64`s, and its buffer is a slice. -/
def DiskOp.Sized : DiskOp → Prop
  | .call (.writeAt _ offset buf _ _ _ _) => offset < 2 ^ 64 ∧ buf.length < 2 ^ 63
  | .setLen _ size _ _ => size < 2 ^ 64
  | _ => True

/-- A call of the shim, an operation of the ring, or a crash of the host. -/
inductive Access where
  | disk (op : DiskOp) (sized : op.Sized)
  | write (file : File) (buf : Slice) (ptrAligned ioError flush : Bool) (now : Duration)
  | readAt (file : File) (ptr : Nat) (buf : Slice) (offset : UInt64) (faults : Shim.ReadFaults)
  | read (file : File) (ptr : Nat) (buf : Slice) (faults : Shim.ReadFaults)
  | seek (file : File) (pos : SeekFrom)
  | execRead (fd : RawFd) (ptr : Nat) (buf : Slice) (offset : UInt64) (faults : Shim.ReadFaults)
  | execWrite (fd : RawFd) (ptr : Nat) (buf : Slice) (offset : UInt64)
    (faults : Uring.WriteFaults) (now : Duration)
  | execFsync (fd : RawFd) (ioError : Bool)

/-- What a call returns, with the buffer a read leaves behind. -/
inductive Reply where
  | plain
  | unit (result : Except ShimError Unit)
  | count (result : Except ShimError Nat)
  | filled (buf : List UInt8) (result : Except ShimError Nat)
  | completion (buf : List UInt8) (result : Option Int)
  deriving DecidableEq

/-- The call came back with an error. -/
def Reply.Refused : Reply → Prop
  | .count result => ∃ kind message, result = .error (.io kind message)
  | .completion _ result => ∃ errno, result = some errno ∧ errno < 0
  | _ => False

/-- A host: its filesystem, and the cursor of every handle. -/
structure Session where
  fs : FsState
  cursors : RawFd → Nat

/-- The settings that are numbers are `u64`s. -/
structure WordConfig where
  capacity : Option UInt64
  blockSize : Option UInt64
  directIoAlignment : UInt64
  pageCache : Option (Nat × Nat)

def WordConfig.toFsConfig (c : WordConfig) : FsConfig :=
  ⟨c.capacity.map UInt64.toNat, c.blockSize.map UInt64.toNat, c.directIoAlignment.toNat, c.pageCache⟩

namespace Session

def new (config : WordConfig) : Session := ⟨FsState.new config.toFsConfig, fun _ => 0⟩

def setCursor (d : Session) (fd : RawFd) (cursor : Nat) : Session :=
  { d with cursors := Function.update d.cursors fd cursor }

/-- A handle handed out starts at 0. -/
def opened (d : Session) (r : Except ShimError File) : Session :=
  match r with
  | .ok f => d.setCursor f.fd 0
  | .error _ => d

/-- The length of the file a descriptor stands for; the inner option is missing when the process ran
out of stack. -/
def lenOf (d : Session) (fd : RawFd) : Option (Option Nat) :=
  (d.fs.openHandles.get? fd).map d.fs.fileLen

/-- Where `Write::write` writes. -/
def writeOffset (d : Session) (f : File) : Option Nat :=
  if f.appendMode then (d.lenOf f.fd).getD (some (d.cursors f.fd)) else some (d.cursors f.fd)

/-! ## 2. The calls as they should be -/

/-- The new position of a `seek`, given what `End` and `Current` add to. -/
def target (d : Session) (f : File) : SeekFrom → Except ShimError Int
  | .start offset => .ok offset.toNat
  | .fromEnd offset =>
    match d.lenOf f.fd with
    | some (some len) => .ok (len + offset.toInt)
    | _ => .error (.io .notFound "file not found")
  | .current offset => .ok (d.cursors f.fd + offset.toInt)

/-- A position is at least 0, and an `off_t`. -/
def seekTo (d : Session) (f : File) (pos : Int) : Session × Reply :=
  if 0 ≤ pos ∧ pos < 2 ^ 63 then (d.setCursor f.fd pos.toNat, .count (.ok pos.toNat))
  else (d, .count (.error (.io .invalidInput "invalid seek to a negative position")))

def seek (d : Session) (f : File) (pos : SeekFrom) : Session × Reply :=
  if d.lenOf f.fd = some none then (d, .count (.error .overflow))
  else
    match d.target f pos with
    | .error e => (d, .count (.error e))
    | .ok pos => d.seekTo f pos

/-- A positional write through a handle, at the place its cursor then ends. -/
def finishWrite (d : Session) (f : File) (offset : Nat) (r : ShimResult Nat) : Session × Reply :=
  match r with
  | (s, .ok n) => (({ d with fs := s } : Session).setCursor f.fd (offset + n), .count (.ok n))
  | (s, .error e) => ({ d with fs := s }, .count (.error e))

def write (d : Session) (f : File) (buf : List UInt8) (ptrAligned ioError flush : Bool)
    (now : Duration) : Session × Reply :=
  match d.writeOffset f with
  | none => (d, .count (.error .overflow))
  | some offset =>
    d.finishWrite f offset (Shim.writeAt d.fs f offset buf ptrAligned ioError flush now)

def read (d : Session) (f : File) (ptr : Nat) (buf : List UInt8) (faults : Shim.ReadFaults) :
    Session × Reply :=
  match Shim.readAt d.fs f ptr buf (d.cursors f.fd) faults with
  | (s, buf, .ok n) =>
    (({ d with fs := s } : Session).setCursor f.fd (d.cursors f.fd + n), .filled buf (.ok n))
  | (s, buf, .error e) => ({ d with fs := s }, .filled buf (.error e))

def disk (d : Session) : DiskOp → Session × Reply
  | .call (.writeAt file offset buf ptrAligned ioError flush now) =>
    let r := Shim.writeAt d.fs file offset buf ptrAligned ioError flush now
    ({ d with fs := r.1 }, .count r.2)
  | .call (.syncAll file) =>
    let r := Shim.syncAll d.fs file
    ({ d with fs := r.1 }, .unit r.2)
  | .call (.syncDir path now) =>
    let r := Shim.syncDir d.fs path now
    ({ d with fs := r.1 }, .unit r.2)
  | .call (.crash surviving) => ({ d with fs := d.fs.crash surviving }, .plain)
  | .setLen file size flush now =>
    let r := Shim.setLen d.fs file size flush now
    ({ d with fs := r.1 }, .unit r.2)
  | .syncData file =>
    let r := Shim.syncData d.fs file
    ({ d with fs := r.1 }, .unit r.2)
  | .call (.openFile options path now) =>
    let r := Shim.openFile d.fs options path now
    (({ d with fs := r.1 } : Session).opened r.2, .plain)
  | .tryClone file =>
    let r := Shim.tryClone d.fs file
    (({ d with fs := r.1 } : Session).opened r.2, .plain)
  | op => ({ d with fs := d.fs.disk op }, .plain)

/-- **The call as it should be.**  A write whose end is no word has no place here (`Meets`). -/
def step (d : Session) : Access → Session × Reply
  | .disk op _ => d.disk op
  | .write file buf ptrAligned ioError flush now =>
    d.write file buf.bytes ptrAligned ioError flush now
  | .readAt file ptr buf offset faults =>
    let r := Shim.readAt d.fs file ptr buf.bytes offset.toNat faults
    ({ d with fs := r.1 }, .filled r.2.1 r.2.2)
  | .read file ptr buf faults => d.read file ptr buf.bytes faults
  | .seek file pos => d.seek file pos
  | .execRead fd ptr buf offset faults =>
    let r := Uring.execRead d.fs fd ptr buf.bytes offset.toNat faults
    ({ d with fs := r.1 }, .completion r.2.1 r.2.2)
  | .execWrite fd ptr buf offset faults now =>
    let r := Uring.execWrite d.fs fd ptr buf.bytes offset.toNat faults now
    ({ d with fs := r.1 }, .completion buf.bytes r.2)
  | .execFsync fd ioError =>
    let r := Uring.execFsync d.fs fd ioError
    ({ d with fs := r.1 }, .completion [] (some r.2))

/-- Through which descriptor a call would write, where, and how much. -/
def writes (d : Session) : Access → Option (RawFd × Nat × Nat)
  | .disk (.call (.writeAt file offset buf _ _ _ _)) _ => some (file.fd, offset, buf.length)
  | .write file buf _ _ _ _ =>
    (d.writeOffset file).map fun offset => (file.fd, offset, buf.bytes.length)
  | .execWrite fd _ buf offset _ _ => some (fd, offset.toNat, buf.bytes.length)
  | _ => none

/-- The call does not write past the last offset, as far as its file is found at all: the search
runs out of stack where hard links go in a circle. -/
def EndFits (d : Session) (op : Access) : Prop :=
  ∀ fd offset len, d.writes op = some (fd, offset, len) → d.lenOf fd ≠ some none →
    offset + len < 2 ^ 64

/-- **The result is the right one**: a call that writes past the last offset is refused and changes
nothing, every other one is the exact one. -/
structure Meets (d : Session) (op : Access) (r : Session × Reply) : Prop where
  exact : d.EndFits op → r = d.step op
  refused : ¬ d.EndFits op → r.2.Refused ∧ r.1 = d

end Session

namespace Machine

/-! ## 3. The calls as the source has them -/

def lenOf (d : Session) (fd : RawFd) : Checked (Option (Option Nat)) :=
  match d.fs.openHandles.get? fd with
  | none => pure none
  | some path => do
    let len ← fileLen d.fs path
    pure (some len)

def writeOffset (d : Session) (f : File) : Checked (Option Nat) :=
  if f.appendMode then do
    let len ← lenOf d f.fd
    pure (len.getD (some (d.cursors f.fd)))
  else pure (some (d.cursors f.fd))

def finishWrite (d : Session) (f : File) (offset : Nat) :
    ShimResult Nat → Checked (Session × Reply)
  | (s, .ok n) => do
    let cursor ← add 64 offset n
    pure (({ d with fs := s } : Session).setCursor f.fd cursor, .count (.ok n))
  | (s, .error e) => pure ({ d with fs := s }, .count (.error e))

/-- `Write::write`. -/
def write (d : Session) (f : File) (buf : List UInt8) (ptrAligned ioError flush : Bool)
    (now : Duration) : Checked (Session × Reply) := do
  match ← writeOffset d f with
  | none => pure (d, .count (.error .overflow))
  | some offset =>
    let r ← writeAt d.fs f offset buf ptrAligned ioError flush now
    finishWrite d f offset r

/-- `Read::read`. -/
def read (d : Session) (f : File) (ptr : Nat) (buf : List UInt8) (faults : Shim.ReadFaults) :
    Checked (Session × Reply) := do
  match ← readAt d.fs f ptr buf (d.cursors f.fd) faults with
  | (s, buf, .ok n) =>
    let cursor ← add 64 (d.cursors f.fd) n
    pure (({ d with fs := s } : Session).setCursor f.fd cursor, .filled buf (.ok n))
  | (s, buf, .error e) => pure ({ d with fs := s }, .filled buf (.error e))

/-- `new_pos`, an `i64`. -/
def target (d : Session) (f : File) (len : Option (Option Nat)) :
    SeekFrom → Checked (Except ShimError Int)
  | .start offset => pure (.ok (signed 64 offset.toNat))
  | .fromEnd offset =>
    match len with
    | some (some len) => do
      let pos ← addSigned 64 (signed 64 len) offset.toInt
      pure (.ok pos)
    | _ => pure (.error (.io .notFound "file not found"))
  | .current offset => do
    let pos ← addSigned 64 (signed 64 (d.cursors f.fd)) offset.toInt
    pure (.ok pos)

def seekTo (d : Session) (f : File) (pos : Int) : Session × Reply :=
  if pos < 0 then
    (d, .count (.error (.io .invalidInput "invalid seek to a negative position")))
  else (d.setCursor f.fd (unsigned 64 pos), .count (.ok (unsigned 64 pos)))

/-- `Seek::seek`. -/
def seek (d : Session) (f : File) (pos : SeekFrom) : Checked (Session × Reply) := do
  let len ← lenOf d f.fd
  if len = some none then pure (d, .count (.error .overflow))
  else
    match ← target d f len pos with
    | .error e => pure (d, .count (.error e))
    | .ok pos => pure (seekTo d f pos)

def disk (d : Session) : DiskOp → Checked (Session × Reply)
  | .call (.writeAt file offset buf ptrAligned ioError flush now) => do
    let r ← writeAt d.fs file offset buf ptrAligned ioError flush now
    pure ({ d with fs := r.1 }, .count r.2)
  | .call (.syncAll file) => do
    let r ← syncAll d.fs file
    pure ({ d with fs := r.1 }, .unit r.2)
  | .call (.syncDir path now) => do
    let r ← syncDir d.fs path now
    let r := r.mapErr FsError.other
    pure ({ d with fs := r.1 }, .unit r.2)
  | .call (.crash surviving) => do
    let s ← crash d.fs surviving
    pure ({ d with fs := s }, .plain)
  | .setLen file size flush now => do
    let r ← setLen d.fs file size flush now
    pure ({ d with fs := r.1 }, .unit r.2)
  | .syncData file => do
    let r ← syncData d.fs file
    pure ({ d with fs := r.1 }, .unit r.2)
  | op => pure (d.disk op)

/-- **The call as the source has it.** -/
def step (d : Session) : Access → Checked (Session × Reply)
  | .disk op _ => disk d op
  | .write file buf ptrAligned ioError flush now =>
    write d file buf.bytes ptrAligned ioError flush now
  | .readAt file ptr buf offset faults => do
    let r ← readAt d.fs file ptr buf.bytes offset.toNat faults
    pure ({ d with fs := r.1 }, .filled r.2.1 r.2.2)
  | .read file ptr buf faults => read d file ptr buf.bytes faults
  | .seek file pos => seek d file pos
  | .execRead fd ptr buf offset faults => do
    let r ← execRead d.fs fd ptr buf.bytes offset.toNat faults
    pure ({ d with fs := r.1 }, .completion r.2.1 r.2.2)
  | .execWrite fd ptr buf offset faults now => do
    let r ← execWrite d.fs fd ptr buf.bytes offset.toNat faults now
    pure ({ d with fs := r.1 }, .completion buf.bytes r.2)
  | .execFsync fd ioError => do
    let r ← execFsync d.fs fd ioError
    pure ({ d with fs := r.1 }, .completion [] (some r.2))

/-- The state after a call that did not panic. -/
def next (d : Session) (op : Access) : Checked Session := do
  let r ← step d op
  pure r.1

/-! ### The conditions -/

/-- A position and a distance: their sum is an `i64`, and if the position is none, neither is the
sum. -/
def Shifts (pos : Nat) (distance : Int) : Prop :=
  (pos < 2 ^ 63 ∧ pos + distance < 2 ^ 63)
    ∨ (2 ^ 63 ≤ pos ∧ 2 ^ 63 ≤ pos + distance ∧ pos + distance < 2 ^ 64)

def SeekFine (d : Session) (f : File) (pos : SeekFrom) : Prop :=
  d.lenOf f.fd ≠ some none →
    match pos with
    | .start _ => True
    | .fromEnd offset => ∀ len, d.lenOf f.fd = some (some len) → Shifts len offset.toInt
    | .current offset => Shifts (d.cursors f.fd) offset.toInt

/-- **When a call is exact.** -/
def Fine (d : Session) : Access → Prop
  | .disk (.call (.writeAt file offset buf ptrAligned ioError _ _)) _ =>
    WriteAtFine d.fs file offset buf ptrAligned ioError
  | .write file buf ptrAligned ioError _ _ =>
    ∀ offset, d.writeOffset file = some offset →
      WriteAtFine d.fs file offset buf.bytes ptrAligned ioError
  | .execWrite fd ptr buf offset faults _ =>
    ExecWriteFine d.fs fd ptr buf.bytes offset.toNat faults
  | .seek file pos => SeekFine d file pos
  | _ => True

/-! ## 4. Positions -/

/-- A computed position stands for an exact one: it is that one, or both are refused. -/
def Stands (pos exact : Int) : Prop :=
  (pos = exact ∧ 0 ≤ exact ∧ exact < 2 ^ 63) ∨ (pos < 0 ∧ ¬ (0 ≤ exact ∧ exact < 2 ^ 63))

theorem stands_start (offset : UInt64) : Stands (signed 64 offset.toNat) offset.toNat := by
  have hlt := offset.toNat_lt
  unfold Stands signed
  split
  · exact Or.inl ⟨rfl, by omega, by omega⟩
  · exact Or.inr ⟨by omega, by omega⟩

section Shift

variable {pos : Nat} {distance : Int}

/-- A sum that `Shifts` does not overflow, and stands for the exact one. -/
theorem Shifts.stands (h : Shifts pos distance) (hdist : -2 ^ 63 ≤ distance) :
    addSigned 64 (signed 64 pos) distance = .ok (signed 64 pos + distance)
      ∧ Stands (signed 64 pos + distance) (pos + distance) := by
  unfold Shifts at h
  have hsum : -2 ^ 63 ≤ signed 64 pos + distance ∧ signed 64 pos + distance < 2 ^ 63 := by
    unfold signed
    split <;> omega
  refine ⟨if_pos hsum, ?_⟩
  unfold Stands signed
  split
  · by_cases hneg : (0 : Int) ≤ pos + distance
    · exact Or.inl ⟨rfl, hneg, by omega⟩
    · exact Or.inr ⟨by omega, by omega⟩
  · exact Or.inr ⟨by omega, by omega⟩

/-- Any other sum overflows, or wraps around to a position that is accepted. -/
theorem not_shifts (h : ¬ Shifts pos distance) (hpos : pos < 2 ^ 64) :
    addSigned 64 (signed 64 pos) distance = .error .signedAdd
      ∨ addSigned 64 (signed 64 pos) distance = .ok (signed 64 pos + distance)
        ∧ 0 ≤ signed 64 pos + distance ∧ 2 ^ 63 ≤ pos + distance := by
  unfold Shifts at h
  by_cases hsum : -2 ^ 63 ≤ signed 64 pos + distance ∧ signed 64 pos + distance < 2 ^ 63
  · refine Or.inr ⟨if_pos hsum, ?_⟩
    unfold signed at hsum ⊢
    split at hsum <;> rename_i hsmall
    · rw [if_pos hsmall]
      omega
    · rw [if_neg hsmall]
      omega
  · exact Or.inl (if_neg hsum)

end Shift

/-- A host whose filesystem fits, and whose cursors are `u64`s. -/
structure Sized (d : Session) : Prop where
  fs : Fits d.fs
  cursors : ∀ fd, d.cursors fd < 2 ^ 64

variable {d : Session}

theorem lenOf_eq (h : Fits d.fs) (fd : RawFd) : lenOf d fd = .ok (d.lenOf fd) := by
  unfold lenOf Session.lenOf
  cases d.fs.openHandles.get? fd with
  | none => rfl
  | some path =>
    simp only [fileLen_eq h, ok_bind]
    rfl

theorem lenOf_lt (h : Fits d.fs) {fd : RawFd} {len : Nat} (hlen : d.lenOf fd = some (some len)) :
    len < 2 ^ 64 := by
  obtain ⟨path, -, hpath⟩ := Option.map_eq_some_iff.mp hlen
  exact fileLen_lt h hpath

theorem seekTo_eq {pos exact : Int} (h : Stands pos exact) (f : File) :
    seekTo d f pos = d.seekTo f exact := by
  unfold seekTo Session.seekTo
  rcases h with ⟨rfl, h0, hlt⟩ | ⟨hneg, hout⟩
  · rw [if_neg (Int.not_lt.mpr h0), if_pos ⟨h0, hlt⟩, unsigned_of_nonneg h0 (by omega)]
  · rw [if_pos hneg, if_neg hout]

/-- A sum that wrapped around is accepted where the exact one is refused. -/
theorem seekTo_ne {pos exact : Int} (hpos : 0 ≤ pos) (hexact : 2 ^ 63 ≤ exact) (f : File) :
    seekTo d f pos ≠ d.seekTo f exact := by
  unfold seekTo Session.seekTo
  rw [if_neg (Int.not_lt.mpr hpos), if_neg (by omega)]
  intro h
  have := (Prod.mk.inj h).2
  cases this

/-- **A seek is exact exactly under its condition.** -/
theorem seek_iff (h : Sized d) (f : File) (pos : SeekFrom) :
    seek d f pos = .ok (d.seek f pos) ↔ SeekFine d f pos := by
  unfold seek Session.seek SeekFine
  rw [lenOf_eq h.fs, ok_bind]
  by_cases hdead : d.lenOf f.fd = some none
  · rw [if_pos hdead, if_pos hdead]
    exact ⟨fun _ hfound => absurd hdead hfound, fun _ => rfl⟩
  rw [if_neg hdead, if_neg hdead, forall_prop_of_true hdead]
  -- a position plus a distance
  have hshift : ∀ (base : Nat) (distance : Int64), base < 2 ^ 64 →
      ((do
          let pos ← addSigned 64 (signed 64 base) distance.toInt
          pure (seekTo d f pos)) = Except.ok (d.seekTo f (base + distance.toInt))
        ↔ Shifts base distance.toInt) := by
    intro base distance hbase
    constructor
    · intro hok
      by_contra hnot
      rcases not_shifts hnot hbase with
        herr | ⟨hsum, hpos, hexact⟩
      · rw [herr, error_bind] at hok
        cases hok
      · rw [hsum, ok_bind] at hok
        exact seekTo_ne hpos hexact f (Except.ok.inj hok)
    · intro hshifts
      obtain ⟨hsum, hstands⟩ := hshifts.stands distance.le_toInt
      rw [hsum, ok_bind, seekTo_eq hstands]
      rfl
  cases pos with
  | start offset =>
    refine iff_of_true ?_ trivial
    show Except.ok (seekTo d f _) = Except.ok (d.seekTo f _)
    rw [seekTo_eq (stands_start offset)]
  | fromEnd offset =>
    cases hlen : d.lenOf f.fd with
    | none =>
      simp only [target, Session.target, hlen]
      exact ⟨fun _ _ => nofun, fun _ => rfl⟩
    | some found =>
      cases found with
      | none => exact absurd hlen hdead
      | some len =>
        have hsum := hshift len offset (lenOf_lt h.fs hlen)
        simp only [target, Session.target, hlen, Option.some.injEq, forall_eq']
        generalize addSigned 64 (signed 64 len) offset.toInt = sum at hsum ⊢
        cases sum <;> exact hsum
  | current offset =>
    have hsum := hshift (d.cursors f.fd) offset (h.cursors f.fd)
    simp only [target, Session.target]
    generalize addSigned 64 (signed 64 (d.cursors f.fd)) offset.toInt = sum at hsum ⊢
    cases sum <;> exact hsum

/-! ## 5. One call -/

theorem writeOffset_eq (h : Fits d.fs) (f : File) : writeOffset d f = .ok (d.writeOffset f) := by
  unfold writeOffset Session.writeOffset
  split
  · rw [lenOf_eq h, ok_bind]
    rfl
  · rfl

theorem finishWrite_eq {f : File} {offset : Nat} {r : ShimResult Nat}
    (hend : ∀ n, r.2 = .ok n → offset + n < 2 ^ 64) :
    finishWrite d f offset r = .ok (d.finishWrite f offset r) := by
  obtain ⟨s, result⟩ := r
  cases result with
  | error e => rfl
  | ok n =>
    simp only [finishWrite, add_of_lt (hend n rfl), ok_bind]
    rfl

theorem write_returns (h : Fits d.fs) (f : File) {buf : List UInt8} (hbuf : buf.length < 2 ^ 63)
    (ptrAligned ioError flush : Bool) (now : Duration) :
    Returns (∀ offset, d.writeOffset f = some offset →
        WriteAtFine d.fs f offset buf ptrAligned ioError)
      (write d f buf ptrAligned ioError flush now) (d.write f buf ptrAligned ioError flush now) := by
  unfold write Session.write
  rw [writeOffset_eq h, ok_bind]
  cases d.writeOffset f with
  | none => exact (Returns.of_ok rfl).congr (by simp)
  | some offset =>
    have hwrite := writeAt_returns h f offset hbuf ptrAligned ioError flush now
    refine (hwrite.bind fun hfine => Returns.of_ok ?_).congr (by simp)
    exact finishWrite_eq (writeAt_after h hbuf flush now hfine rfl).2.1

theorem read_eq (h : Sized d) (f : File) (ptr : Nat) (buf : List UInt8) (faults : Shim.ReadFaults) :
    read d f ptr buf faults = .ok (d.read f ptr buf faults) := by
  unfold read Session.read
  rw [readAt_eq h.fs, ok_bind]
  rcases hread : Shim.readAt d.fs f ptr buf (d.cursors f.fd) faults with ⟨s, buf', result⟩
  cases result with
  | error e => rfl
  | ok n =>
    simp only [add_of_lt (readAt_end h.fs (h.cursors f.fd) hread).2, ok_bind]
    rfl

/-- **One call of the source is the call as it should be, exactly if it is fine.** -/
theorem step_returns (h : Sized d) {op : Access} (hseek : ∀ f pos, op ≠ .seek f pos) :
    Returns (Fine d op) (step d op) (d.step op) := by
  cases op with
  | disk op sized =>
    cases op with
    | call op =>
      cases op with
      | writeAt file offset buf ptrAligned ioError flush now =>
        exact (writeAt_returns h.fs file offset sized.2 ptrAligned ioError flush now).map _
      | syncAll file => exact (Returns.of_ok (syncHandle_eq h.fs file).1).map _
      | syncDir path now => exact (Returns.of_ok (syncDir_eq h.fs path now)).map _
      | crash surviving => exact (Returns.of_ok (crash_eq h.fs surviving).1).map _
      | _ => exact Returns.of_ok rfl
    | setLen file size flush now => exact (Returns.of_ok (setLen_eq h.fs file sized flush now).1).map _
    | syncData file => exact (Returns.of_ok (syncHandle_eq h.fs file).1).map _
    | _ => exact Returns.of_ok rfl
  | write file buf ptrAligned ioError flush now =>
    exact write_returns h.fs file buf.short ptrAligned ioError flush now
  | readAt file ptr buf offset faults =>
    exact (Returns.of_ok (readAt_eq h.fs file ptr buf.bytes offset.toNat faults)).map _
  | read file ptr buf faults => exact Returns.of_ok (read_eq h file ptr buf.bytes faults)
  | seek file pos => exact absurd rfl (hseek file pos)
  | execRead fd ptr buf offset faults =>
    exact (Returns.of_ok (execRead_eq h.fs fd ptr buf.bytes offset.toNat faults)).map _
  | execWrite fd ptr buf offset faults now =>
    exact (execWrite_returns h.fs fd ptr buf.short offset.toNat faults now).map _
  | execFsync fd ioError => exact (Returns.of_ok (execFsync_eq h.fs fd ioError).1).map _

/-- A fine call that writes past the last offset is refused. -/
theorem refused_of_fine (h : Sized d) {op : Access} (hfine : Fine d op) (hend : ¬ d.EndFits op) :
    (d.step op).2.Refused ∧ (d.step op).1 = d := by
  unfold Session.EndFits at hend
  push Not at hend
  obtain ⟨fd, offset, len, hwrites, hfound, hover⟩ := hend
  have hover := Nat.not_lt.mpr hover
  cases op with
  | disk op sized =>
    cases op with
    | call op =>
      cases op with
      | writeAt file offset' buf ptrAligned ioError flush now =>
        obtain ⟨rfl, rfl, rfl⟩ : file.fd = fd ∧ offset' = offset ∧ buf.length = len := by
          simpa [Session.writes] using hwrites
        rcases hr : Shim.writeAt d.fs file offset' buf ptrAligned ioError flush now with ⟨t, r⟩
        obtain ⟨rfl, kind, message, rfl⟩ :=
          (writeAt_after h.fs sized.2 flush now hfine hr).2.2 hover hfound
        simp only [Session.step, Session.disk, hr, and_true]
        exact ⟨kind, message, rfl⟩
      | _ => cases hwrites
    | _ => cases hwrites
  | write file buf ptrAligned ioError flush now =>
    obtain ⟨offset', hoff, heq⟩ := Option.map_eq_some_iff.mp hwrites
    obtain ⟨rfl, rfl, rfl⟩ : file.fd = fd ∧ offset' = offset ∧ buf.bytes.length = len := by
      simpa using heq
    rcases hr : Shim.writeAt d.fs file offset' buf.bytes ptrAligned ioError flush now with ⟨t, r⟩
    obtain ⟨rfl, kind, message, rfl⟩ :=
      (writeAt_after h.fs buf.short flush now (hfine offset' hoff) hr).2.2 hover hfound
    simp only [Session.step, Session.write, hoff, hr, Session.finishWrite, and_true]
    exact ⟨kind, message, rfl⟩
  | execWrite fd' ptr buf offset' faults now =>
    obtain ⟨rfl, rfl, rfl⟩ : fd' = fd ∧ offset'.toNat = offset ∧ buf.bytes.length = len := by
      simpa [Session.writes] using hwrites
    rcases hr : Uring.execWrite d.fs fd' ptr buf.bytes offset'.toNat faults now with ⟨t, r⟩
    obtain ⟨rfl, errno, rfl, hneg⟩ :=
      (execWrite_after h.fs buf.short now hfine hr).2 hover hfound
    simp only [Session.step, hr, and_true]
    exact ⟨errno, rfl, hneg⟩
  | _ => cases hwrites

theorem Sized.withFs (h : Sized d) {s : FsState} (hs : Fits s) :
    Sized ({ d with fs := s } : Session) := ⟨hs, h.cursors⟩

theorem Sized.setCursor (h : Sized d) {cursor : Nat} (hcursor : cursor < 2 ^ 64) (fd : RawFd) :
    Sized (d.setCursor fd cursor) := by
  refine ⟨h.fs, fun fd' => ?_⟩
  by_cases hfd : fd' = fd
  · subst hfd
    simpa [Session.setCursor] using hcursor
  · simpa [Session.setCursor, hfd] using h.cursors fd'

theorem Sized.opened (h : Sized d) (r : Except ShimError File) : Sized (d.opened r) := by
  cases r with
  | ok f => exact h.setCursor (Nat.two_pow_pos 64) f.fd
  | error e => exact h

theorem Sized.finishWrite (h : Sized d) {f : File} {offset : Nat} {r : ShimResult Nat}
    (hfits : Fits r.1) (hend : ∀ n, r.2 = .ok n → offset + n < 2 ^ 64) :
    Sized (d.finishWrite f offset r).1 := by
  obtain ⟨s, result⟩ := r
  cases result with
  | error e => exact h.withFs hfits
  | ok n => exact (h.withFs hfits).setCursor (hend n rfl) f.fd

theorem Sized.seek (h : Sized d) (f : File) (pos : SeekFrom) : Sized (d.seek f pos).1 := by
  unfold Session.seek
  split
  · exact h
  · split
    · exact h
    · unfold Session.seekTo
      split
      · rename_i hrange
        exact h.setCursor (by omega) f.fd
      · exact h

/-- **The state after a fine call fits.** -/
theorem Sized.step (h : Sized d) {op : Access} (hfine : Fine d op) : Sized (d.step op).1 := by
  cases op with
  | disk op sized =>
    cases op with
    | call op =>
      cases op with
      | writeAt file offset buf ptrAligned ioError flush now =>
        exact h.withFs (writeAt_after h.fs sized.2 flush now hfine rfl).1
      | syncAll file => exact h.withFs (syncHandle_eq h.fs file).2
      | syncDir path now =>
        simp only [Session.step, Session.disk, Shim.syncDir, FsResult.mapErr_fst]
        exact h.withFs (h.fs.syncDir path now)
      | crash surviving => exact h.withFs (crash_eq h.fs surviving).2
      | openFile options path now =>
        exact (h.withFs (h.fs.openFile options path now)).opened _
      | _ => exact h.withFs (h.fs.disk _ trivial)
    | setLen file size flush now => exact h.withFs (setLen_eq h.fs file sized flush now).2
    | syncData file => exact h.withFs (syncHandle_eq h.fs file).2
    | tryClone file => exact (h.withFs (h.fs.disk (.tryClone file) trivial)).opened _
    | _ => exact h.withFs (h.fs.disk _ trivial)
  | write file buf ptrAligned ioError flush now =>
    simp only [Session.step, Session.write]
    split
    · exact h
    · rename_i offset hoff
      have hafter := writeAt_after h.fs buf.short flush now (hfine offset hoff) rfl
      exact h.finishWrite hafter.1 hafter.2.1
  | readAt file ptr buf offset faults =>
    refine h.withFs ?_
    rw [Uring.readAt_state]
    exact h.fs
  | read file ptr buf faults =>
    simp only [Session.step, Session.read]
    rcases hread : Shim.readAt d.fs file ptr buf.bytes (d.cursors file.fd) faults with
      ⟨s, buf', result⟩
    obtain rfl : s = d.fs := by
      have hs := Uring.readAt_state (s := d.fs) file ptr buf.bytes (d.cursors file.fd) faults
      rwa [hread] at hs
    cases result with
    | error e => exact h
    | ok n => exact h.setCursor (readAt_end h.fs (h.cursors file.fd) hread).2 file.fd
  | seek file pos => exact h.seek file pos
  | execRead fd ptr buf offset faults =>
    refine h.withFs ?_
    rw [Uring.execRead_state]
    exact h.fs
  | execWrite fd ptr buf offset faults now =>
    exact h.withFs (execWrite_after h.fs buf.short now hfine rfl).1
  | execFsync fd ioError => exact h.withFs (execFsync_eq h.fs fd ioError).2

/-- **A call does what it should, exactly if it is fine.** -/
theorem meets_iff (h : Sized d) (op : Access) :
    (∃ r, step d op = .ok r ∧ d.Meets op r) ↔ Fine d op := by
  by_cases hseek : ∃ f pos, op = .seek f pos
  · obtain ⟨f, pos, rfl⟩ := hseek
    have hfits : d.EndFits (.seek f pos) := fun fd offset len hwrites => by cases hwrites
    -- a wrapped sum does not fail: only the exact result tells
    refine Iff.trans ⟨?_, fun hok => ⟨_, hok, fun _ => rfl, fun hnot => absurd hfits hnot⟩⟩
      (seek_iff h f pos)
    rintro ⟨r, hstep, hmeets⟩
    obtain rfl := hmeets.exact hfits
    exact hstep
  · have hreturns := step_returns h fun f pos heq => hseek ⟨f, pos, heq⟩
    constructor
    · rintro ⟨r, hstep, -⟩
      rcases hreturns with ⟨hfine, -⟩ | ⟨-, e, herr⟩
      · exact hfine
      · rw [hstep] at herr
        cases herr
    · exact fun hfine =>
        ⟨d.step op, hreturns.ok hfine, fun _ => rfl, refused_of_fine h hfine⟩

/-- What a fine call leaves behind, as the source computes it. -/
theorem Sized.next (h : Sized d) {op : Access} (hfine : Fine d op) {d' : Session}
    (hnext : Machine.next d op = .ok d') : Sized d' := by
  obtain ⟨r, hstep, hmeets⟩ := (meets_iff h op).mpr hfine
  rw [Machine.next, hstep, ok_bind] at hnext
  obtain rfl := Except.ok.inj hnext
  by_cases hend : d.EndFits op
  · rw [hmeets.exact hend]
    exact h.step hfine
  · rw [(hmeets.refused hend).2]
    exact h

/-! ## 6. Runs -/

/-- The state after a run of calls, none of which panicked. -/
def run (config : WordConfig) (ops : List Access) : Checked Session :=
  ops.foldlM next (Session.new config)

/-- Whatever is read, synced or lost next, nothing overflows. -/
structure Safe (s : FsState) : Prop where
  fileLen : ∀ path, fileLen s path = .ok (s.fileLen path)
  readFile : ∀ path bufLen offset,
    readFile s path bufLen offset = .ok (s.readFile path bufLen offset)
  flushFile : ∀ path, flushFile s path = .ok (s.flushFile path)
  syncDir : ∀ path time, syncDir s path time = .ok (s.syncDir path time)
  crash : ∀ surviving, crash s surviving = .ok (s.crash surviving)

theorem Fits.safe {s : FsState} (h : Fits s) : Safe s where
  fileLen := fileLen_eq h
  readFile := readFile_eq h
  flushFile path := (flushFile_eq h path).1
  syncDir := syncDir_eq h
  crash surviving := (crash_eq h surviving).1

theorem sized_new (config : WordConfig) : Sized (Session.new config) := by
  refine ⟨⟨nofun, ?_, fun b hb => ?_⟩, fun fd => Nat.two_pow_pos 64⟩
  · intro p f hget
    simp [Session.new, FsState.new] at hget
  · obtain ⟨word, -, rfl⟩ := Option.map_eq_some_iff.mp hb
    exact word.toNat_lt

/-- **Offsets never overflow along a run**: in every state it reaches, readers, syncs and a crash are
safe at every offset, and every call is exact, or refused if it writes past the last offset. -/
structure OffsetsExact (config : WordConfig) (ops : List Access) : Prop where
  safe : ∀ before d, before <+: ops → run config before = .ok d → Safe d.fs
  exact : ∀ before op d, before ++ [op] <+: ops → run config before = .ok d →
    ∃ r, step d op = .ok r ∧ d.Meets op r

/-- **When offsets never overflow**: along exactly the runs whose calls are all fine. -/
theorem offsets_exact_iff (config : WordConfig) (ops : List Access) :
    OffsetsExact config ops ↔ AlongOk next Fine (Session.new config) ops := by
  have hkeep : ∀ d op d', Sized d → Fine d op → next d op = .ok d' → Sized d' :=
    fun _ _ _ h hfine hnext => h.next hfine hnext
  have hiff := alongOk_congr (fun d op h => meets_iff (d := d) h op) hkeep ops (sized_new config)
  rw [← hiff, alongOk_iff_forall]
  constructor
  · exact fun h => h.exact
  · intro h
    have hfine := hiff.mp (alongOk_iff_forall ops |>.mpr h)
    have hsized := AlongOk.invariant hkeep (sized_new config) hfine
    exact ⟨fun before d hpre hrun => (hsized before d hpre hrun).fs.safe, h⟩

/-! ### A write at the last offset -/

/-- No capacity, and no torn writes. -/
def plainConfig : WordConfig := ⟨none, none, 512, none⟩

/-- One byte, at the last offset there is. -/
def lastByte : Access :=
  .disk (.call (.writeAt FsState.freshFile (2 ^ 64 - 1) [1] true false false 0))
    ⟨by decide, by decide⟩

/-- **A write at the last offset ends the process** instead of being refused. -/
theorem write_at_last_offset_overflows :
    (do
        let d ← run plainConfig [.disk FsState.openFresh trivial]
        let r ← step d lastByte
        pure r.2) = .error .add
      ∧ ¬ OffsetsExact plainConfig [.disk FsState.openFresh trivial, lastByte] := by
  have hpanics : (do
      let d ← run plainConfig [.disk FsState.openFresh trivial]
      let r ← step d lastByte
      pure r.2) = .error .add := by decide +kernel
  have hopens : (run plainConfig [.disk FsState.openFresh trivial]).toBool = true := by
    decide +kernel
  refine ⟨hpanics, fun h => ?_⟩
  cases hrun : run plainConfig [.disk FsState.openFresh trivial] with
  | error e =>
    rw [hrun] at hopens
    cases hopens
  | ok d =>
    obtain ⟨r, hstep, -⟩ := h.exact [.disk FsState.openFresh trivial] lastByte d (by simp) hrun
    rw [hrun, ok_bind, hstep] at hpanics
    cases hpanics

end Machine

end Turmoil.Fs
