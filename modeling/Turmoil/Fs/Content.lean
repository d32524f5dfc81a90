/-
# The bytes a reader sees, and the bytes a flush stores

`file_len` and `read_file` rebuild a file's bytes from the persisted inode and the pending
writes addressed to it.  Both are functions of one list, `content`: `readFile` is a slice of it
and `fileLen` its length.

A sync computes bytes too, by applying the pending data operations to the inode one by one
(`applied`).  The two differ.  A reader lays every pending write over the stored bytes and then
cuts at the current length; it never looks at a pending truncation.  So a file that was cut and
has grown again shows the reader bytes that the flush will not store.  `NoRegrow` is the
condition under which this has not happened, and `contentAt_eq_applied` says that then the
reader sees what the flush stores.
-/
import Turmoil.Fs.Namespace

namespace Turmoil.Fs

open Buffer

namespace FsState

/-! ## 1. What a reader sees -/

/-- The bytes of the inode stored under a name; none is as good as an empty one. -/
def storedContent (s : FsState) (path : Path) : List UInt8 :=
  ((s.persistedFiles.get? path).map (·.content)).getD []

/-- Lay one write over a total reading. -/
def overlayByte (b : Nat → UInt8) (offset : Nat) (data : List UInt8) (i : Nat) : UInt8 :=
  if offset ≤ i ∧ i < offset + data.length then data.getD (i - offset) 0 else b i

/-- The total reading of the content stored under a name: the stored bytes under the pending
writes addressed to it. -/
def visibleByte (s : FsState) (content : Path) : Nat → UInt8 :=
  s.pending.foldl (fun b op =>
    match op with
    | .write p offset data _ =>
      if s.addressesContent p content then overlayByte b offset data else b
    | _ => b) (fun i => (s.storedContent content).getD i 0)

/-- The bytes visible under a stored name. -/
def contentAt (s : FsState) (content : Path) : List UInt8 :=
  (List.range (s.fileLenAt content)).map (s.visibleByte content)

/-- The bytes visible at a path. -/
def content (s : FsState) (path : Path) : Option (List UInt8) :=
  (s.resolveContentPath path).map s.contentAt

@[simp] theorem length_contentAt (s : FsState) (c : Path) :
    (s.contentAt c).length = s.fileLenAt c := by simp [contentAt]

theorem getD_contentAt {s : FsState} {c : Path} {i : Nat} (h : i < s.fileLenAt c) :
    (s.contentAt c).getD i 0 = s.visibleByte c i := by
  rw [List.getD_eq_getElem _ _ (by simpa using h)]
  simp [contentAt]

theorem storedLen_eq (s : FsState) (c : Path) :
    ((s.persistedFiles.get? c).map (·.content.length)).getD 0 = (s.storedContent c).length := by
  unfold storedContent
  cases s.persistedFiles.get? c <;> rfl

theorem fileLen_eq_length (s : FsState) (p : Path) :
    s.fileLen p = (s.content p).map List.length := by
  unfold fileLen content
  cases s.resolveContentPath p <;> simp

/-! ## 2. `read_file` is a slice -/

/-- One overlaid write, byte by byte. -/
theorem overlayWrite_spec (buf : List UInt8) (offset writeOff : Nat) (data : List UInt8) :
    (overlayWrite buf offset writeOff data).length = buf.length
      ∧ ∀ j < buf.length, (overlayWrite buf offset writeOff data).getD j 0
          = overlayByte (fun i => buf.getD (i - offset) 0) writeOff data (offset + j) := by
  unfold overlayWrite
  split
  · rename_i hov
    have hfit : max writeOff offset - offset
        + ((data.drop (max writeOff offset - writeOff)).take
            (min (writeOff + data.length) (offset + buf.length) - max writeOff offset)).length
          ≤ buf.length := by
      simp only [List.length_take, List.length_drop]
      omega
    refine ⟨length_copyAt hfit, fun j hj => ?_⟩
    rw [getD_copyAt hfit, overlayByte]
    simp only [List.length_take, List.length_drop, Nat.add_sub_cancel_left]
    by_cases hin : writeOff ≤ offset + j ∧ offset + j < writeOff + data.length
    · rw [if_pos (by omega), if_pos hin]
      simp only [List.getD_eq_getElem?_getD, List.getElem?_take, List.getElem?_drop]
      rw [if_pos (by omega)]
      congr 2
      omega
    · rw [if_neg (by omega), if_neg hin]
  · rename_i hno
    refine ⟨rfl, fun j hj => ?_⟩
    rw [overlayByte, if_neg (by omega), Nat.add_sub_cancel_left]

/-- The bytes `read_file` starts from: the stored ones, zero-padded. -/
theorem readBase_spec (s : FsState) (c : Path) (offset toRead : Nat) :
    let zeros : List UInt8 := List.replicate toRead 0
    let buf := match s.persistedFiles.get? c with
      | none => zeros
      | some f =>
        if offset < min f.content.length (offset + toRead) then
          copyAt zeros 0 ((f.content.drop offset).take
            (min f.content.length (offset + toRead) - offset))
        else zeros
    buf.length = toRead ∧ ∀ j < toRead, buf.getD j 0 = (s.storedContent c).getD (offset + j) 0 := by
  have hzero : ∀ j, (List.replicate toRead (0 : UInt8)).getD j 0 = 0 := by
    intro j
    simp only [List.getD_eq_getElem?_getD, List.getElem?_replicate]
    split <;> rfl
  intro zeros buf
  simp only [buf, zeros, storedContent]
  cases s.persistedFiles.get? c with
  | none => exact ⟨by simp, fun j _ => by simp⟩
  | some f =>
    simp only [Option.map_some, Option.getD_some]
    split
    · rename_i hlt
      have hfit : 0 + ((f.content.drop offset).take
          (min f.content.length (offset + toRead) - offset)).length
            ≤ (List.replicate toRead (0 : UInt8)).length := by
        simp only [List.length_take, List.length_drop, List.length_replicate]
        omega
      refine ⟨by rw [length_copyAt hfit, List.length_replicate], fun j hj => ?_⟩
      rw [getD_copyAt hfit]
      simp only [List.length_take, List.length_drop, Nat.zero_add, Nat.zero_le, true_and,
        Nat.sub_zero]
      split
      · simp only [List.getD_eq_getElem?_getD, List.getElem?_take, List.getElem?_drop]
        rw [if_pos (by omega)]
      · rw [hzero, getD_of_le (by omega)]
    · exact ⟨by simp, fun j hj => by rw [hzero, getD_of_le (by omega)]⟩

/-- `read_file` fills its buffer with the visible bytes. -/
theorem readFileAt_spec (s : FsState) (c : Path) (offset toRead : Nat) :
    (s.readFileAt c offset toRead).length = toRead
      ∧ ∀ j < toRead, (s.readFileAt c offset toRead).getD j 0 = s.visibleByte c (offset + j) := by
  obtain ⟨hl, hb⟩ := readBase_spec s c offset toRead
  unfold readFileAt visibleByte
  -- both folds run over the same queue; the buffer stays the window of the total reading
  suffices h : ∀ (ops : List PendingOp) (buf : List UInt8) (b : Nat → UInt8),
      buf.length = toRead → (∀ j < toRead, buf.getD j 0 = b (offset + j)) →
      (ops.foldl (fun buf op =>
        match op with
        | .write p writeOff data _ =>
          if s.addressesContent p c then overlayWrite buf offset writeOff data else buf
        | _ => buf) buf).length = toRead
      ∧ ∀ j < toRead, (ops.foldl (fun buf op =>
        match op with
        | .write p writeOff data _ =>
          if s.addressesContent p c then overlayWrite buf offset writeOff data else buf
        | _ => buf) buf).getD j 0
          = ops.foldl (fun b op =>
            match op with
            | .write p writeOff data _ =>
              if s.addressesContent p c then overlayByte b writeOff data else b
            | _ => b) b (offset + j) by
    exact h s.pending _ _ hl hb
  intro ops
  induction ops with
  | nil => exact fun buf b hl hb => ⟨hl, hb⟩
  | cons op ops ih =>
    intro buf b hl hb
    rw [List.foldl_cons, List.foldl_cons]
    cases op with
    | write p writeOff data time =>
      by_cases ha : s.addressesContent p c = true
      · simp only [ha, if_true]
        obtain ⟨hl', hb'⟩ := overlayWrite_spec buf offset writeOff data
        refine ih _ _ (hl'.trans hl) (fun j hj => ?_)
        rw [hb' j (by omega), overlayByte, overlayByte, Nat.add_sub_cancel_left, hb j hj]
      · simp only [ha]
        exact ih _ _ hl hb
    | _ => exact ih _ _ hl hb

/-- **A read is a slice of the visible bytes.**  A read into an empty buffer returns at once,
even where the content path does not resolve. -/
theorem readFile_eq_slice (s : FsState) (p : Path) (bufLen offset : Nat) :
    s.readFile p bufLen offset
      = if bufLen = 0 then some [] else (s.content p).map fun c => (c.drop offset).take bufLen := by
  unfold readFile
  split
  · rfl
  · unfold fileLen content
    cases hc : s.resolveContentPath p with
    | none => rfl
    | some c =>
      simp only [Option.map_some]
      have hlen := length_contentAt s c
      split
      · rw [List.drop_eq_nil_of_le (by omega), List.take_nil]
      · obtain ⟨hl, hb⟩ := readFileAt_spec s c offset (min bufLen (s.fileLenAt c - offset))
        congr 1
        apply ext_getD
        · simp only [hl, List.length_take, List.length_drop, hlen]
        · intro j hj
          rw [hl] at hj
          rw [hb j hj]
          simp only [List.getD_eq_getElem?_getD, List.getElem?_take, List.getElem?_drop]
          rw [if_pos (by omega), ← List.getD_eq_getElem?_getD, getD_contentAt (by omega)]

/-! ## 3. What a flush stores -/

/-- One data operation on a file's bytes. -/
def dataStep (c : List UInt8) : PendingOp → List UInt8
  | .write _ offset data _ => writeAt c offset data
  | .setLen _ len _ => resize c len
  | _ => c

/-- The bytes a sync of `path` would store. -/
def applied (s : FsState) (path : Path) : List UInt8 :=
  (s.pending.filter (isDataOf path)).foldl dataStep (s.storedContent path)

/-- No data operation after the first grows the file over bytes that a truncation cut off: in
the queue, a file of length `len` whose stored or written bytes ever reached `ext` is written
or extended past `len` only while `ext ≤ len`. -/
def noRegrowFrom (len ext : Nat) : List PendingOp → Prop
  | [] => True
  | .write _ offset data _ :: ops =>
    (offset ≤ len ∨ ext ≤ len)
      ∧ noRegrowFrom (max len (offset + data.length)) (max ext (offset + data.length)) ops
  | .setLen _ n _ :: ops => (n ≤ len ∨ ext ≤ len) ∧ noRegrowFrom n ext ops
  | _ :: ops => noRegrowFrom len ext ops

/-- The pending data operations on `path` never regrow it. -/
def NoRegrow (s : FsState) (path : Path) : Prop :=
  noRegrowFrom (s.storedContent path).length (s.storedContent path).length
    (s.pending.filter (isDataOf path))

instance decidableNoRegrowFrom : ∀ (len ext : Nat) (ops : List PendingOp),
    Decidable (noRegrowFrom len ext ops)
  | _, _, [] => isTrue trivial
  | len, ext, op :: ops =>
    match op with
    | .write _ offset data _ =>
      have := decidableNoRegrowFrom (max len (offset + data.length))
        (max ext (offset + data.length)) ops
      inferInstanceAs (Decidable (_ ∧ _))
    | .setLen _ n _ =>
      have := decidableNoRegrowFrom n ext ops
      inferInstanceAs (Decidable (_ ∧ _))
    | .createFile .. => decidableNoRegrowFrom len ext ops
    | .createDir .. => decidableNoRegrowFrom len ext ops
    | .createSymlink .. => decidableNoRegrowFrom len ext ops
    | .createHardLink .. => decidableNoRegrowFrom len ext ops
    | .setPermissions .. => decidableNoRegrowFrom len ext ops
    | .rename .. => decidableNoRegrowFrom len ext ops
    | .removeFile .. => decidableNoRegrowFrom len ext ops
    | .removeDir .. => decidableNoRegrowFrom len ext ops

instance (s : FsState) (path : Path) : Decidable (s.NoRegrow path) :=
  decidableNoRegrowFrom _ _ _

/-! ## 4. Both as functions of the stored bytes and a list of data operations -/

/-- Is this a pending data operation that readers count as part of the content at `content`? -/
def isDataAt (s : FsState) (content : Path) : PendingOp → Bool
  | .write p _ _ _ => s.addressesContent p content
  | .setLen p _ _ => s.addressesContent p content
  | _ => false

/-- A data operation on `p` is addressed to a content exactly if `p` is. -/
theorem isDataAt_of_isDataOf {s : FsState} {p c : Path} {op : PendingOp}
    (h : isDataOf p op = true) : s.isDataAt c op = s.addressesContent p c := by
  cases op with
  | write q offset data time =>
    obtain rfl : q = p := by simpa [isDataOf] using h
    rfl
  | setLen q len time =>
    obtain rfl : q = p := by simpa [isDataOf] using h
    rfl
  | _ => cases h

theorem isDataAt_congr {s t : FsState} {c : Path}
    (h : ∀ x, t.addressesContent x c = s.addressesContent x c) (op : PendingOp) :
    t.isDataAt c op = s.isDataAt c op := by
  cases op with
  | write q offset data time => exact h q
  | setLen q len time => exact h q
  | _ => rfl

/-- The data operations addressed to `content`, oldest first. -/
def dataAt (s : FsState) (content : Path) : List PendingOp :=
  s.pending.filter (s.isDataAt content)

def lenStep (len : Nat) : PendingOp → Nat
  | .write _ offset data _ => max len (offset + data.length)
  | .setLen _ n _ => n
  | _ => len

def byteStep (b : Nat → UInt8) : PendingOp → Nat → UInt8
  | .write _ offset data _ => overlayByte b offset data
  | _ => b

/-- What readers make of stored bytes and data operations. -/
def view (base : List UInt8) (ops : List PendingOp) : List UInt8 :=
  (List.range (ops.foldl lenStep base.length)).map (ops.foldl byteStep fun i => base.getD i 0)

theorem fileLenAt_eq (s : FsState) (c : Path) :
    s.fileLenAt c = (s.dataAt c).foldl lenStep (s.storedContent c).length := by
  unfold fileLenAt dataAt
  rw [storedLen_eq]
  refine foldl_filter_congr ?_ ?_ _
  · intro op _ hp len
    cases op <;> simp_all [isDataAt, lenStep]
    split <;> omega
  · intro op _ hp len
    cases op <;> simp_all [isDataAt]

theorem visibleByte_eq (s : FsState) (c : Path) :
    s.visibleByte c = (s.dataAt c).foldl byteStep fun i => (s.storedContent c).getD i 0 := by
  unfold visibleByte dataAt
  refine foldl_filter_congr ?_ ?_ _
  · intro op _ hp b
    cases op <;> simp_all [isDataAt, byteStep]
  · intro op _ hp b
    cases op <;> simp_all [isDataAt]

/-- **The visible bytes depend on the stored bytes and the addressed operations only.** -/
theorem contentAt_eq_view (s : FsState) (c : Path) :
    s.contentAt c = view (s.storedContent c) (s.dataAt c) := by
  rw [contentAt, view, fileLenAt_eq, visibleByte_eq]

/-- With nothing pending, the stored bytes are visible. -/
@[simp] theorem view_nil (base : List UInt8) : view base [] = base := by
  apply ext_getD
  · simp [view]
  · intro i hi
    have hi' : i < base.length := by simpa [view] using hi
    rw [List.getD_eq_getElem _ _ hi, List.getD_eq_getElem _ _ hi']
    simp [view, hi']

@[simp] theorem length_view (base : List UInt8) (ops : List PendingOp) :
    (view base ops).length = ops.foldl lenStep base.length := by simp [view]

theorem length_dataStep (c : List UInt8) (op : PendingOp) :
    (dataStep c op).length = lenStep c.length op := by
  cases op <;> simp [dataStep, lenStep]

theorem length_foldl_dataStep (ops : List PendingOp) (c : List UInt8) :
    (ops.foldl dataStep c).length = ops.foldl lenStep c.length := by
  induction ops generalizing c with
  | nil => rfl
  | cons op ops ih => rw [List.foldl_cons, List.foldl_cons, ih, length_dataStep]

/-- The invariant of `NoRegrow`: below the current length the reader's bytes and the flushed
ones agree, and past `ext` the reader sees zeros. -/
theorem foldl_dataStep_getD {ops : List PendingOp} : ∀ {c : List UInt8} {b : Nat → UInt8}
    {e : Nat}, noRegrowFrom c.length e ops → (∀ i < c.length, c.getD i 0 = b i) →
      (∀ i, e ≤ i → b i = 0) →
      ∀ i < (ops.foldl dataStep c).length, (ops.foldl dataStep c).getD i 0
        = ops.foldl byteStep b i := by
  induction ops with
  | nil => exact fun _ hb _ => hb
  | cons op ops ih =>
    intro c b e hn hb h0
    rw [List.foldl_cons, List.foldl_cons]
    cases op with
    | write p offset data time =>
      obtain ⟨hgap, hn⟩ := hn
      refine ih (e := max e (offset + data.length)) ?_ ?_ ?_
      · simpa [dataStep] using hn
      · intro i hi
        simp only [dataStep, length_writeAt] at hi
        simp only [dataStep, byteStep, overlayByte, getD_writeAt]
        split
        · rfl
        · -- inside the old length, or in a gap that no earlier write reached
          by_cases hc : i < c.length
          · exact hb i hc
          · rw [getD_of_le (by omega), h0 i (by omega)]
      · intro i hi
        simp only [byteStep, overlayByte]
        rw [if_neg (by omega), h0 i (by omega)]
    | setLen p n time =>
      obtain ⟨hgap, hn⟩ := hn
      refine ih (e := e) ?_ ?_ h0
      · simpa [dataStep] using hn
      · intro i hi
        simp only [dataStep, length_resize] at hi
        simp only [dataStep, byteStep, getD_resize, if_pos hi]
        by_cases hc : i < c.length
        · exact hb i hc
        · rw [getD_of_le (by omega), h0 i (by omega)]
    | _ => exact ih hn hb h0

/-- **Without regrowth, the reader sees what a flush stores.** -/
theorem view_eq_applied {base : List UInt8} {ops : List PendingOp}
    (h : noRegrowFrom base.length base.length ops) : view base ops = ops.foldl dataStep base := by
  apply ext_getD
  · rw [length_view, length_foldl_dataStep]
  · intro i hi
    have hi' : i < (ops.foldl dataStep base).length := by
      rwa [length_view, ← length_foldl_dataStep] at hi
    rw [foldl_dataStep_getD h (fun _ _ => rfl) (fun _ hle => getD_of_le hle) i hi',
      List.getD_eq_getElem _ _ hi]
    simp [view]

/-- With an empty queue, a path shows the bytes stored under it. -/
theorem content_of_pending_nil {s : FsState} (h : s.pending = []) (p : Path) :
    s.content p = some (s.storedContent p) := by
  have hr : s.resolveContentPath p = some p := by
    simp [resolveContentPath, h, resolveContentPathIn, resolveHardlinkTarget,
      resolvePersistedPath]
  rw [content, hr, Option.map_some, contentAt_eq_view, dataAt, h]
  simp

/-! ## 5. The flush of a file -/

/-- Applying the data operations of one path touches the bytes of that path only. -/
theorem foldl_applyOp_data {p : Path} {ops : List PendingOp} (hops : ∀ op ∈ ops, isDataOf p op) :
    ∀ {s : FsState} {f : FileData}, s.persistedFiles.get? p = some f →
      ∃ files f', ops.foldl applyOpToPersisted s = { s with persistedFiles := files }
        ∧ files.get? p = some f' ∧ f'.content = ops.foldl dataStep f.content
        ∧ ∀ q, q ≠ p → files.get? q = s.persistedFiles.get? q := by
  induction ops with
  | nil => exact fun {s f} hf => ⟨s.persistedFiles, f, rfl, hf, rfl, fun _ _ => rfl⟩
  | cons op ops ih =>
    intro s f hf
    have hop := hops op List.mem_cons_self
    have htail := @ih (fun o ho => hops o (List.mem_cons_of_mem _ ho))
    cases op with
    | write path offset data time =>
      have hpath : path = p := by simpa [isDataOf] using hop
      subst hpath
      obtain ⟨files, f', h1, h2, h3, h4⟩ := htail
        (s := s.applyOpToPersisted (.write path offset data time))
        (f := f.applyWrite offset data time) (by simp [applyOpToPersisted, hf])
      refine ⟨files, f', by rw [List.foldl_cons, h1]; rfl, h2, h3, fun q hq => ?_⟩
      rw [h4 q hq]
      simp [applyOpToPersisted, hq]
    | setLen path len time =>
      have hpath : path = p := by simpa [isDataOf] using hop
      subst hpath
      obtain ⟨files, f', h1, h2, h3, h4⟩ := htail
        (s := s.applyOpToPersisted (.setLen path len time))
        (f := f.applySetLen len time) (by simp [applyOpToPersisted, hf])
      refine ⟨files, f', by rw [List.foldl_cons, h1]; rfl, h2, h3, fun q hq => ?_⟩
      rw [h4 q hq]
      simp [applyOpToPersisted, hq]
    | _ => simp [isDataOf] at hop

/-- **What a successful sync of a file does.**  Only the file map and the queue change: the
data operations of the path leave the queue, its inode exists and holds their outcome. -/
theorem flushFile_spec {s : FsState} {p : Path} (h : s.fileExists p = true) :
    ∃ files f, s.flushFile p = ({ s with
        persistedFiles := files
        pending := s.pending.filter (fun op => !isDataOf p op) }, .ok ())
      ∧ files.get? p = some f ∧ f.content = s.applied p
      ∧ ∀ q, q ≠ p → files.get? q = s.persistedFiles.get? q := by
  unfold flushFile
  simp only [h, Bool.not_true, Bool.false_eq_true, if_false]
  have hops : ∀ op ∈ s.pending.filter (isDataOf p), isDataOf p op :=
    fun op ho => (List.mem_filter.mp ho).2
  split
  · rename_i hc
    obtain ⟨f, hf⟩ := IndexMap.contains_iff.mp hc
    obtain ⟨files, f', h1, h2, h3, h4⟩ := foldl_applyOp_data hops
      (s := { s with pending := s.pending.filter (fun op => !isDataOf p op) }) hf
    refine ⟨files, f', by rw [h1], h2, ?_, h4⟩
    rw [h3, applied, storedContent, hf]
    rfl
  · rename_i hc
    have hn := IndexMap.contains_eq_false.mp (Bool.not_eq_true _ ▸ hc)
    obtain ⟨files, f', h1, h2, h3, h4⟩ := foldl_applyOp_data hops
      (s := { s with
        persistedFiles := s.persistedFiles.insert p (FileData.withMode
          (pendingCreation (s.pending.filter (fun op => !isDataOf p op)) p).1
          (pendingCreation (s.pending.filter (fun op => !isDataOf p op)) p).2)
        pending := s.pending.filter (fun op => !isDataOf p op) })
      ((IndexMap.get?_insert _ _ _ _).trans (if_pos rfl))
    refine ⟨files, f', by rw [h1], h2, ?_, fun q hq => ?_⟩
    · rw [h3, applied, storedContent, hn]
      rfl
    · rw [h4 q hq]
      simp [hq]

theorem flushFile_err {s : FsState} {p : Path} (h : s.fileExists p = false) :
    s.flushFile p = (s, .error .noSuchFile) := by simp [flushFile, h]

/-! ## 6. Flushes that move no bytes -/

/-- Applying the operation to files with these bytes changes none of them. -/
def keepsBytes (c : Path → List UInt8) : PendingOp → Prop
  | .createHardLink .. | .write .. | .setLen .. => False
  | .removeFile p => c p = []
  | .rename src dst => c src = [] ∧ c dst = []
  | _ => True

theorem applyOp_storedContent {s : FsState} {op : PendingOp}
    (h : keepsBytes s.storedContent op) :
    (s.applyOpToPersisted op).storedContent = s.storedContent := by
  funext q
  cases op with
  | createFile p time mode =>
    by_cases hq : q = p
    · subst hq
      cases hg : s.persistedFiles.get? q <;>
        simp [applyOpToPersisted, storedContent, hg, FileData.withMode]
    · simp [applyOpToPersisted, storedContent, hq]
  | createDir p time mode => rfl
  | createSymlink p target time => rfl
  | removeDir p => rfl
  | removeFile p =>
    by_cases hq : q = p
    · subst hq
      rw [show s.storedContent q = [] from h]
      simp [applyOpToPersisted, storedContent]
    · simp [applyOpToPersisted, storedContent, hq]
  | setPermissions p mode time =>
    simp only [applyOpToPersisted]
    split
    · by_cases hq : q = p
      · subst hq
        cases hg : s.persistedFiles.get? q <;> simp [storedContent, hg]
      · simp [storedContent, hq]
    · rfl
  | rename src dst =>
    obtain ⟨hsrc, hdst⟩ := h
    simp only [applyOpToPersisted]
    split
    · rename_i d hd
      have hcontent : d.content = [] := by simpa [storedContent, hd] using hsrc
      by_cases hqd : q = dst
      · subst hqd
        rw [hdst]
        simp [storedContent, hcontent]
      · by_cases hqs : q = src
        · subst hqs
          rw [hsrc]
          simp [storedContent, hqd]
        · simp [storedContent, hqd, hqs]
    · split
      · rfl
      · split <;> rfl
  | _ => exact absurd h id

theorem foldl_applyOp_storedContent {log : List PendingOp} : ∀ {s : FsState},
    (∀ op ∈ log, keepsBytes s.storedContent op) →
      (log.foldl applyOpToPersisted s).storedContent = s.storedContent := by
  induction log with
  | nil => exact fun _ => rfl
  | cons op log ih =>
    intro s h
    have hop := applyOp_storedContent (h op List.mem_cons_self)
    rw [List.foldl_cons, ih (fun o ho => hop ▸ h o (List.mem_cons_of_mem _ ho)), hop]

end FsState

end Turmoil.Fs
