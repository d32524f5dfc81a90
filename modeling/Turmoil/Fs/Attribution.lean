/-
# Which bytes belong to which file

A write or a `set_len` is queued under the path it was made through.  Two readers of the queue
decide later whose bytes it holds: a sync of a file takes the operations queued under that very
path and applies them one by one, and `file_len` and `read_file` follow the hard links and the
renames of a path to one content name and take every operation that the pending renames carry
to that name.  This file says exactly when the two come to the same.

**Section 1** compares the reader with the sync where no rename is involved.  A reader looks at
a truncation only for the length.  Bytes that were cut off come back when the file grows again,
and `pending_view_iff` says that this is the only difference.

**Section 2** follows one more write.  It shows up at the paths whose content name it addresses
and nowhere else, so a file that was renamed into place does not see its own writes
(`read_your_writes_iff`) and a file that was renamed away sees the writes to the new file of its
old name (`writes_stay_apart_iff`).

**Section 3** is about a name that comes into use again.  A creation only queues an entry; what
an earlier file of the name left, in the queue or on the disk, is still there
(`new_file_empty_iff`).
-/
import Turmoil.Fs.Durable
import Turmoil.Fs.SyncView

namespace Turmoil.Fs

open Buffer

namespace FsState

/-! ## 1. Bytes that were cut off -/

/-- The byte a pending operation writes at one offset. -/
def writtenAt (i : Nat) : PendingOp → Option UInt8
  | .write _ offset data _ =>
    if offset ≤ i ∧ i < offset + data.length then some (data.getD (i - offset) 0) else none
  | _ => none

/-- The byte at one offset, were there no truncation: the newest write there, else the stored
byte. -/
def lastWritten (base : List UInt8) (ops : List PendingOp) (i : Nat) : UInt8 :=
  (ops.reverse.findSome? (writtenAt i)).getD (base.getD i 0)

/-- What a pending operation says of the byte at one offset: cut off, or written. -/
def cutAt (i : Nat) : PendingOp → Option Bool
  | .write _ offset data _ =>
    if offset ≤ i ∧ i < offset + data.length then some false else none
  | .setLen _ len _ => if len ≤ i then some true else none
  | _ => none

/-- A pending truncation cut the byte at this offset off, and no later write put one there. -/
def cutOff (ops : List PendingOp) (i : Nat) : Bool := (ops.reverse.findSome? (cutAt i)).getD false

theorem findSome?_reverse_append {β : Type} (f : PendingOp → Option β) (ops : List PendingOp)
    (op : PendingOp) :
    (ops ++ [op]).reverse.findSome? f = (f op).or (ops.reverse.findSome? f) := by
  rw [List.reverse_append, List.reverse_singleton, List.singleton_append, List.findSome?_cons]
  cases f op <;> rfl

/-- A reader sees what was written last, cut off or not. -/
theorem foldl_byteStep_eq (base : List UInt8) (ops : List PendingOp) (i : Nat) :
    ops.foldl byteStep (fun i => base.getD i 0) i = lastWritten base ops i := by
  induction ops using List.reverseRecOn with
  | nil => rfl
  | append_singleton ops op ih =>
    rw [List.foldl_append, List.foldl_cons, List.foldl_nil, lastWritten,
      findSome?_reverse_append]
    cases op with
    | write p offset data time =>
      simp only [byteStep, overlayByte, writtenAt]
      split
      · rfl
      · exact ih
    | _ => exact ih

/-- A flush leaves a zero where a byte was cut off. -/
theorem getD_foldl_dataStep (base : List UInt8) (ops : List PendingOp) (i : Nat) :
    (ops.foldl dataStep base).getD i 0 = if cutOff ops i then 0 else lastWritten base ops i := by
  induction ops using List.reverseRecOn with
  | nil => rfl
  | append_singleton ops op ih =>
    rw [List.foldl_append, List.foldl_cons, List.foldl_nil, lastWritten, cutOff,
      findSome?_reverse_append, findSome?_reverse_append]
    cases op with
    | write p offset data time =>
      simp only [dataStep, getD_writeAt, writtenAt, cutAt]
      split
      · rfl
      · exact ih
    | setLen p len time =>
      rw [dataStep, getD_resize]
      by_cases hi : i < len
      · have hcut : cutAt i (.setLen p len time) = none := if_neg (by omega)
        rw [if_pos hi, hcut]
        exact ih
      · have hcut : cutAt i (.setLen p len time) = some true := if_pos (by omega)
        rw [if_neg hi, hcut]
        rfl
    | _ => exact ih

/-- The two agree where no byte that was cut off shows again. -/
theorem view_eq_foldl_iff (base : List UInt8) (ops : List PendingOp) :
    view base ops = ops.foldl dataStep base
      ↔ ∀ i < (ops.foldl dataStep base).length, cutOff ops i = true → lastWritten base ops i = 0 := by
  have hlen : (view base ops).length = (ops.foldl dataStep base).length := by
    rw [length_view, length_foldl_dataStep]
  have hview : ∀ i < (ops.foldl dataStep base).length,
      (view base ops).getD i 0 = lastWritten base ops i := by
    intro i hi
    rw [← foldl_byteStep_eq, List.getD_eq_getElem _ _ (hlen ▸ hi)]
    simp [view]
  constructor
  · intro h i hi hcut
    rw [← hview i hi, h, getD_foldl_dataStep, if_pos hcut]
  · intro h
    refine ext_getD hlen fun i hi => ?_
    rw [hview i (hlen ▸ hi), getD_foldl_dataStep]
    split
    · rename_i hcut
      exact h i (hlen ▸ hi) hcut
    · rfl

/-- `file_len` and `read_file` show exactly these bytes at a path. -/
structure Shows (s : FsState) (p : Path) (c : List UInt8) : Prop where
  len : s.fileLen p = some c.length
  bytes : ∀ bufLen offset, s.readFile p bufLen offset = some ((c.drop offset).take bufLen)

theorem shows_iff {s : FsState} {p : Path} {c : List UInt8} :
    s.Shows p c ↔ s.content p = some c := by
  constructor
  · rintro ⟨hlen, hbytes⟩
    rw [fileLen_eq_length] at hlen
    obtain ⟨b, hb, hbl⟩ := Option.map_eq_some_iff.mp hlen
    -- one read with room for everything and one byte more
    have hread := hbytes (c.length + 1) 0
    rw [readFile_eq_slice, if_neg (by omega), hb, Option.map_some, List.drop_zero,
      List.drop_zero, List.take_of_length_le (by omega), List.take_of_length_le (by omega)] at hread
    rw [hb, hread]
  · intro h
    refine ⟨by rw [fileLen_eq_length, h, Option.map_some], fun bufLen offset => ?_⟩
    rw [readFile_eq_slice, h]
    split
    · rename_i h0
      rw [h0, List.take_zero]
    · rfl

/-- **Exactly when readers see what a sync stores.**  Of a file that no pending operation moves
or links into place, `file_len` and `read_file` show the stored bytes with the pending writes
and truncations of its path applied in order, as `sync_file` stores them, if and only if every
byte inside the final length that was cut off and not written again was a zero. -/
theorem pending_view_iff {s : FsState} {p : Path} (hfile : s.fileExists p = true)
    (hmoved : ∀ src, PendingOp.rename src p ∉ s.pending)
    (hlinked : ∀ target time, PendingOp.createHardLink p target time ∉ s.pending) :
    (s.Shows p (s.applied p)
        ∧ ∃ t, s.syncFile p = (t, .ok ()) ∧ t.storedContent p = s.applied p)
      ↔ ∀ i < (s.applied p).length, cutOff (s.pending.filter (isDataOf p)) i = true →
          lastWritten (s.storedContent p) (s.pending.filter (isDataOf p)) i = 0 := by
  have hpull : pullAll s.pending p = p :=
    (pullAll_cases s.pending p).resolve_right fun ⟨⟨src, hsrc⟩, _⟩ => hmoved src hsrc
  have hcontent : s.content p
      = some (view (s.storedContent p) (s.pending.filter (isDataOf p))) := by
    rw [content, resolveContentPath_of_no_link hlinked, hpull, Option.map_some,
      contentAt_eq_view, dataAt_eq_isDataOf hmoved]
  have hsync : ∃ t, s.syncFile p = (t, .ok ()) ∧ t.storedContent p = s.applied p := by
    obtain ⟨files, f, heq, -⟩ := flushFile_spec hfile
    refine ⟨_, heq, ?_⟩
    have hstored := flushFile_storedContent hfile p
    rwa [heq, if_pos rfl] at hstored
  rw [and_iff_left hsync, shows_iff, hcontent, Option.some_inj]
  exact view_eq_foldl_iff _ _

/-- A durable file of two bytes, cut to nothing and extended again. -/
def regrown : List FsOp :=
  [.createFile (Path.abs ["f"]) 0 0o644, .writeFile (Path.abs ["f"]) 0 [7, 8] 0,
    .syncFile (Path.abs ["f"]), .syncDir Path.root 0,
    .setFileLen (Path.abs ["f"]) 0 1, .setFileLen (Path.abs ["f"]) 2 2]

/-- The reader sees the two bytes again; the sync stores two zeros. -/
theorem cut_bytes_come_back :
    let s := (FsState.new FsConfig.default).run regrown
    s.fileExists (Path.abs ["f"]) = true
      ∧ (∀ op ∈ s.pending, Path.abs ["f"] ∉ op.names)
      ∧ s.readFile (Path.abs ["f"]) 2 0 = some [7, 8]
      ∧ s.applied (Path.abs ["f"]) = [0, 0]
      ∧ ¬ s.Shows (Path.abs ["f"]) (s.applied (Path.abs ["f"])) := by
  intro s
  have hread : s.readFile (Path.abs ["f"]) 2 0 = some [7, 8] := by decide
  have happ : s.applied (Path.abs ["f"]) = [0, 0] := by decide
  refine ⟨by decide, by decide, hread, happ, fun h => ?_⟩
  have := h.bytes 2 0
  rw [hread, happ] at this
  exact absurd this (by decide)

/-- Cut to one byte, and the cut part written anew. -/
theorem pending_view_iff_rewritten :
    let s := (FsState.new FsConfig.default).run (regrown.take 4
      ++ [.setFileLen (Path.abs ["f"]) 1 1, .writeFile (Path.abs ["f"]) 1 [9] 2])
    s.fileExists (Path.abs ["f"]) = true ∧ s.Shows (Path.abs ["f"]) [7, 9] := by
  intro s
  have hex : s.fileExists (Path.abs ["f"]) = true := by decide
  have happ : s.applied (Path.abs ["f"]) = [7, 9] := by decide
  have hkinds : ∀ op ∈ s.pending, Path.abs ["f"] ∉ op.names := by decide
  have hiff := pending_view_iff hex
    (fun src hm => hkinds _ hm (by simp [PendingOp.names]))
    (fun target time hm => hkinds _ hm (by simp [PendingOp.names]))
  have hshows := (hiff.mpr (by rw [happ]; decide)).1
  exact ⟨hex, happ ▸ hshows⟩

/-! ## 2. One more write -/

/-- Renames and hard links: the operations that change what a path's content is. -/
def moves : PendingOp → Bool
  | .rename .. => true
  | .createHardLink .. => true
  | _ => false

section Push

variable {s : FsState} {op : PendingOp} (hop : moves op = false)

include hop

theorem push_resolveContentPath (q : Path) :
    (s.push op).resolveContentPath q = s.resolveContentPath q := by
  have hlinks : (s.push op).resolveHardlinkTarget = s.resolveHardlinkTarget := by
    funext r
    have hnone : hardLinkAt r op = none := by
      cases op <;> first | rfl | cases hop
    simp only [resolveHardlinkTarget, push, List.findSome?_append, List.findSome?_cons, hnone,
      List.findSome?_nil, Option.or_none]
  have hpull : ∀ r, pullAll (s.pending ++ [op]) r = pullAll s.pending r := by
    intro r
    have hstep : pullPath op r = r := by
      cases op <;> first | rfl | cases hop
    rw [pullAll, List.foldr_append, List.foldr_cons, List.foldr_nil, hstep]
    rfl
  rw [resolveContentPath, resolveContentPath, resolveContentPathIn_eq, resolveContentPathIn_eq,
    chase_congr hlinks (by simp [push]), resolvePersistedPath_eq, resolvePersistedPath_eq]
  congr 1
  funext r
  exact hpull r

theorem push_addressesContent (x c : Path) :
    (s.push op).addressesContent x c = s.addressesContent x c := by
  have hpush : pushAll (s.pending ++ [op]) x = pushAll s.pending x := by
    rw [pushAll, List.foldl_append, List.foldl_cons, List.foldl_nil]
    cases op <;> first | rfl | cases hop
  rw [addressesContent, addressesContent, pathRenamedTo_eq, pathRenamedTo_eq]
  simp only [push, hpush]

theorem push_dataAt (c : Path) :
    (s.push op).dataAt c = s.dataAt c ++ [op].filter (s.isDataAt c) := by
  rw [dataAt, dataAt, ← List.filter_append]
  apply List.filter_congr
  exact fun o _ => isDataAt_congr (fun x => push_addressesContent hop x c) o

/-- An operation that moves nothing changes the content of a path by the step it takes there,
or not at all. -/
theorem push_content (q : Path) : (s.push op).content q = (s.resolveContentPath q).map fun c =>
    view (s.storedContent c) (s.dataAt c ++ [op].filter (s.isDataAt c)) := by
  rw [content, push_resolveContentPath hop]
  congr 1
  funext c
  rw [contentAt_eq_view, push_dataAt hop]
  rfl

end Push

theorem content_eq_view (s : FsState) (q : Path) :
    s.content q = (s.resolveContentPath q).map fun c => view (s.storedContent c) (s.dataAt c) := by
  rw [content]
  congr 1
  funext c
  exact contentAt_eq_view s c

/-- An operation addressed elsewhere leaves the content of a path alone. -/
theorem push_content_of_unaddressed {s : FsState} {op : PendingOp} {q : Path}
    (hop : moves op = false)
    (h : ∀ c, s.resolveContentPath q = some c → s.isDataAt c op = false) :
    (s.push op).content q = s.content q := by
  rw [push_content hop, content_eq_view]
  cases hc : s.resolveContentPath q with
  | none => rfl
  | some c => rw [Option.map_some, Option.map_some, List.filter_cons_of_neg (by simp [h c hc]),
      List.filter_nil, List.append_nil]

/-- One more write lays its bytes over what was visible. -/
theorem getD_view_append_write (base : List UInt8) (ops : List PendingOp) (p : Path) (offset : Nat)
    (data : List UInt8) (time : Duration) {i : Nat}
    (hi : i < (view base (ops ++ [.write p offset data time])).length) :
    (view base (ops ++ [.write p offset data time])).getD i 0
      = if offset ≤ i ∧ i < offset + data.length then data.getD (i - offset) 0
        else lastWritten base ops i := by
  rw [List.getD_eq_getElem _ _ hi]
  simp only [view, List.getElem_map, List.getElem_range]
  rw [List.foldl_append, List.foldl_cons, List.foldl_nil, byteStep, overlayByte,
    foldl_byteStep_eq]

theorem length_view_append_write (base : List UInt8) (ops : List PendingOp) (p : Path)
    (offset : Nat) (data : List UInt8) (time : Duration) :
    (view base (ops ++ [.write p offset data time])).length
      = max (view base ops).length (offset + data.length) := by
  rw [length_view, length_view, List.foldl_append]
  rfl

theorem getD_view (base : List UInt8) (ops : List PendingOp) {i : Nat}
    (hi : i < (view base ops).length) : (view base ops).getD i 0 = lastWritten base ops i := by
  rw [List.getD_eq_getElem _ _ hi, ← foldl_byteStep_eq]
  simp [view]

/-- A slice of a file is decided by its length and its total reading. -/
theorem slice_eq {c d : List UInt8} {offset n : Nat} (hn : d.length = n)
    (hfit : offset + n ≤ c.length) (h : ∀ j < n, c.getD (offset + j) 0 = d.getD j 0) :
    (c.drop offset).take n = d := by
  apply ext_getD
  · rw [List.length_take, List.length_drop]
    omega
  · intro j hj
    rw [List.length_take, List.length_drop] at hj
    rw [← h j (by omega)]
    simp only [List.getD_eq_getElem?_getD, List.getElem?_take, List.getElem?_drop]
    rw [if_pos (by omega)]

theorem slice_one {c : List UInt8} {i : Nat} (hi : i < c.length) :
    (c.drop i).take 1 = [c.getD i 0] :=
  slice_eq rfl (by omega) fun j hj => by
    obtain rfl : j = 0 := by omega
    rfl

/-- What a caller of `write_file` counts on at a path: the length grows to the end of the
write, the range reads back as written, and the other bytes stay. -/
def ReadsOwnWrites (s : FsState) (p : Path) : Prop :=
  ∀ (offset : Nat) (data : List UInt8) (time : Duration), data ≠ [] →
    offset + data.length < 2 ^ 63 →
    let t := s.writeFile p offset data time
    ∃ len, s.fileLen p = some len ∧ t.fileLen p = some (max len (offset + data.length))
      ∧ t.readFile p data.length offset = some data
      ∧ ∀ i < len, i < offset ∨ offset + data.length ≤ i →
          t.readFile p 1 i = s.readFile p 1 i

theorem writeFile_of_ne_nil (s : FsState) (p : Path) (offset : Nat) {data : List UInt8}
    (time : Duration) (h : data ≠ []) :
    s.writeFile p offset data time = s.push (.write p offset data time) := by
  simp [writeFile, h]

/-- **Exactly when a path sees its own writes.**  The path's content name has to exist, which
it does unless hard links go in a circle, and it has to be the path itself or the name that the
pending renames carry the path to. -/
theorem read_your_writes_iff (s : FsState) (p : Path) :
    s.ReadsOwnWrites p
      ↔ ∃ c, s.resolveContentPath p = some c ∧ s.addressesContent p c = true := by
  constructor
  · intro h
    obtain ⟨len, hlen, -⟩ := h 0 [0] 0 (by simp) (by simp)
    obtain ⟨c, hc, -⟩ := Option.map_eq_some_iff.mp hlen
    refine ⟨c, hc, ?_⟩
    by_contra hno
    -- the write is not seen, so no two different bytes can both read back
    have hsame : ∀ b : UInt8, s.readFile p 1 0 = some [b] := by
      intro b
      obtain ⟨len, -, -, hread, -⟩ := h 0 [b] 0 (by simp) (by simp)
      rw [writeFile_of_ne_nil _ _ _ _ (by simp), readFile_eq_slice,
        push_content_of_unaddressed rfl, ← readFile_eq_slice] at hread
      · exact hread
      · intro c' hc'
        obtain rfl : c = c' := Option.some_inj.mp (hc.symm.trans hc')
        simpa [isDataAt] using hno
    have h01 := (hsame 0).symm.trans (hsame 1)
    exact absurd h01 (by decide)
  · rintro ⟨c, hc, haddr⟩ offset data time hne -
    have hpos := List.length_pos_iff.mpr hne
    simp only [writeFile_of_ne_nil s p offset time hne]
    have hold : s.content p = some (view (s.storedContent c) (s.dataAt c)) := by
      rw [content_eq_view, hc, Option.map_some]
    have hnew : (s.push (.write p offset data time)).content p
        = some (view (s.storedContent c) (s.dataAt c ++ [.write p offset data time])) := by
      rw [push_content rfl, hc, Option.map_some, List.filter_cons_of_pos (by exact haddr),
        List.filter_nil]
    have hgrow := length_view_append_write (s.storedContent c) (s.dataAt c) p offset data time
    have hbyte := @getD_view_append_write (s.storedContent c) (s.dataAt c) p offset data time
    refine ⟨_, by rw [fileLen_eq_length, hold, Option.map_some], ?_, ?_, fun i hi hout => ?_⟩
    · rw [fileLen_eq_length, hnew, Option.map_some, hgrow]
    · rw [readFile_eq_slice, if_neg (by omega), hnew, Option.map_some]
      refine congrArg some (slice_eq rfl (by omega) fun j hj => ?_)
      rw [hbyte (by omega), if_pos (by omega), Nat.add_sub_cancel_left]
    · have hout : ¬ (offset ≤ i ∧ i < offset + data.length) := by omega
      rw [readFile_eq_slice, readFile_eq_slice, hnew, hold, Option.map_some, Option.map_some,
        slice_one (by omega), slice_one hi, hbyte (by omega), if_neg hout, getD_view _ _ hi]

/-- A file renamed into place, the rename not synced. -/
def renamedIn : List FsOp :=
  [.createFile (Path.abs ["a"]) 0 0o644, .rename (Path.abs ["a"]) (Path.abs ["b"])]

/-- It does not see what is written to it. -/
theorem renamed_file_misses_write :
    let s := (FsState.new FsConfig.default).run renamedIn
    s.fileExists (Path.abs ["b"]) = true
      ∧ (s.writeFile (Path.abs ["b"]) 0 [7] 1).fileLen (Path.abs ["b"]) = some 0
      ∧ (s.writeFile (Path.abs ["b"]) 0 [7] 1).readFile (Path.abs ["b"]) 1 0 = some []
      ∧ ¬ s.ReadsOwnWrites (Path.abs ["b"]) := by
  intro s
  have hread : (s.writeFile (Path.abs ["b"]) 0 [7] 1).readFile (Path.abs ["b"]) 1 0 = some [] := by
    decide
  refine ⟨by decide, by decide, hread, fun h => ?_⟩
  obtain ⟨len, -, -, hown, -⟩ := h 0 [7] 1 (by simp) (by simp)
  rw [show ([7] : List UInt8).length = 1 from rfl, hread] at hown
  exact absurd hown (by decide)

theorem invalidateCache_resolveContentPath (s : FsState) (p q : Path) :
    (s.invalidateCache p).resolveContentPath q = s.resolveContentPath q :=
  resolveContentPath_congr (by rfl) q

theorem invalidateCache_content (s : FsState) (p q : Path) :
    (s.invalidateCache p).content q = s.content q := by
  rw [content, content, invalidateCache_resolveContentPath]
  rfl

/-- The two calls that change a file's bytes, made at `p`, leave what is read at `q` alone. -/
def WritesStayApart (s : FsState) (p q : Path) : Prop :=
  (∀ offset data time,
    (s.writeFile p offset data time).fileLen q = s.fileLen q
      ∧ ∀ bufLen pos, (s.writeFile p offset data time).readFile q bufLen pos
          = s.readFile q bufLen pos)
    ∧ ∀ len time,
      (s.setFileLen p len time).fileLen q = s.fileLen q
        ∧ ∀ bufLen pos, (s.setFileLen p len time).readFile q bufLen pos
            = s.readFile q bufLen pos

theorem reads_congr {s t : FsState} {q : Path} (h : t.content q = s.content q) :
    t.fileLen q = s.fileLen q ∧ ∀ bufLen pos, t.readFile q bufLen pos = s.readFile q bufLen pos := by
  refine ⟨by rw [fileLen_eq_length, fileLen_eq_length, h], fun bufLen pos => ?_⟩
  rw [readFile_eq_slice, readFile_eq_slice, h]

/-- **Exactly when writes to one path leave another alone**: neither is the other's content
name the written path, nor do the pending renames carry the written path to it. -/
theorem writes_stay_apart_iff (s : FsState) (p q : Path) :
    s.WritesStayApart p q
      ↔ ∀ c, s.resolveContentPath q = some c → s.addressesContent p c = false := by
  have hpush : ∀ len time, s.setFileLen p len time
      = (s.invalidateCache p).push (.setLen p len time) := fun _ _ => rfl
  constructor
  · rintro ⟨-, hset⟩ c hc
    by_contra haddr
    rw [Bool.not_eq_false] at haddr
    -- a length one off shows
    have hlen := (hset (s.fileLenAt c + 1) 0).1
    rw [hpush, fileLen_eq_length, push_content rfl, invalidateCache_resolveContentPath, hc,
      Option.map_some, Option.map_some,
      List.filter_cons_of_pos (by exact haddr), List.filter_nil, length_view, List.foldl_append, fileLen, hc, Option.map_some] at hlen
    simp only [List.foldl_cons, List.foldl_nil, lenStep, Option.some_inj] at hlen
    omega
  · intro h
    refine ⟨fun offset data time => reads_congr ?_, fun len time => reads_congr ?_⟩
    · by_cases hne : data = []
      · rw [show s.writeFile p offset data time = s by simp [writeFile, hne]]
      · rw [writeFile_of_ne_nil _ _ _ _ hne]
        exact push_content_of_unaddressed rfl h
    · rw [hpush, push_content_of_unaddressed rfl, invalidateCache_content]
      intro c hc
      rw [invalidateCache_resolveContentPath] at hc
      exact h c hc

/-- Log rotation: the old log is renamed away and a new file takes its name. -/
def rotated : List FsOp :=
  [.createFile (Path.abs ["log"]) 0 0o644, .rename (Path.abs ["log"]) (Path.abs ["log.1"]),
    .createFile (Path.abs ["log"]) 1 0o644]

/-- A line written to the new log shows up in the old one, and there alone. -/
theorem write_leaks_into_rotated_log :
    let s := (FsState.new FsConfig.default).run rotated
    s.fileExists (Path.abs ["log"]) = true ∧ s.fileExists (Path.abs ["log.1"]) = true
      ∧ s.fileLen (Path.abs ["log.1"]) = some 0
      ∧ (s.writeFile (Path.abs ["log"]) 0 [7] 2).fileLen (Path.abs ["log.1"]) = some 1
      ∧ ¬ s.WritesStayApart (Path.abs ["log"]) (Path.abs ["log.1"]) := by
  intro s
  have hold : s.fileLen (Path.abs ["log.1"]) = some 0 := by decide
  have hnew : (s.writeFile (Path.abs ["log"]) 0 [7] 2).fileLen (Path.abs ["log.1"]) = some 1 := by
    decide
  refine ⟨by decide, by decide, hold, hnew, fun h => ?_⟩
  have := (h.1 0 [7] 2).1
  rw [hold, hnew] at this
  exact absurd this (by decide)

/-! ## 3. A name that is used again -/

/-- A queue built by calls holds no empty write. -/
def WritesFilled (s : FsState) : Prop :=
  ∀ p offset data time, PendingOp.write p offset data time ∈ s.pending → data ≠ []

theorem WritesFilled.push {s : FsState} (h : s.WritesFilled) {op : PendingOp}
    (hop : ∀ p offset data time, op = .write p offset data time → data ≠ []) :
    (s.push op).WritesFilled := by
  intro p offset data time hm
  rcases List.mem_append.mp hm with hm | hm
  · exact h p offset data time hm
  · exact hop p offset data time (List.mem_singleton.mp hm).symm

theorem WritesFilled.filter {s t : FsState} (h : s.WritesFilled) {k : PendingOp → Bool}
    (ht : t.pending = s.pending.filter k) : t.WritesFilled := by
  intro p offset data time hm
  rw [ht] at hm
  exact h p offset data time (List.mem_filter.mp hm).1

theorem WritesFilled.flushFile {s : FsState} (h : s.WritesFilled) (p : Path) :
    (s.flushFile p).1.WritesFilled := by
  cases hex : s.fileExists p with
  | false => rwa [flushFile_err hex]
  | true => exact h.filter (flushFile_pending hex)

theorem WritesFilled.apply {s : FsState} (h : s.WritesFilled) (op : FsOp) :
    (s.apply op).1.WritesFilled := by
  cases op with
  | mkdir p time mode =>
    rcases s.mkdir_cases p time mode with ⟨e, he⟩ | ⟨he, -⟩ <;> simp only [FsState.apply, he]
    · exact h
    · exact h.push (by rintro _ _ _ _ ⟨⟩)
  | createFile p time mode => exact h.push (by rintro _ _ _ _ ⟨⟩)
  | symlink p target time =>
    rcases s.createSymlink_cases p target time with ⟨e, he⟩ | ⟨he, -⟩ <;>
      simp only [FsState.apply, he]
    · exact h
    · exact h.push (by rintro _ _ _ _ ⟨⟩)
  | hardLink p target time =>
    rcases s.createHardLink_cases p target time with ⟨e, he⟩ | ⟨he, -⟩ <;>
      simp only [FsState.apply, he]
    · exact h
    · exact h.push (by rintro _ _ _ _ ⟨⟩)
  | writeFile p offset data time =>
    simp only [FsState.apply]
    by_cases hne : data = []
    · rwa [show s.writeFile p offset data time = s by simp [writeFile, hne]]
    · rw [writeFile_of_ne_nil s p offset time hne]
      exact h.push fun _ _ _ _ e => by
        cases e
        exact hne
  | setFileLen p len time => exact WritesFilled.push (s := s.invalidateCache p) h (by rintro _ _ _ _ ⟨⟩)
  | setPermissions p mode time =>
    rcases s.setPermissions_cases p mode time with ⟨e, he⟩ | he <;> simp only [FsState.apply, he]
    · exact h
    · exact h.push (by rintro _ _ _ _ ⟨⟩)
  | rename src dst =>
    rcases s.rename_cases src dst with ⟨e, he⟩ | ⟨he, -⟩ <;> simp only [FsState.apply, he]
    · exact h
    · exact h.push (by rintro _ _ _ _ ⟨⟩)
  | unlink p =>
    rcases s.unlink_cases p with ⟨e, he⟩ | ⟨he, -⟩ <;> simp only [FsState.apply, he]
    · exact h
    · exact WritesFilled.push (s := s.invalidateCache p) h (by rintro _ _ _ _ ⟨⟩)
  | rmdir p =>
    rcases s.rmdir_cases p with ⟨e, he⟩ | ⟨he, -⟩ <;> simp only [FsState.apply, he]
    · exact h
    · exact h.push (by rintro _ _ _ _ ⟨⟩)
  | syncFile p => exact h.flushFile p
  | syncFileData p => exact h.flushFile p
  | syncDir d time =>
    simp only [FsState.apply]
    cases hd : s.dirExists d with
    | false => rwa [syncDir_err hd]
    | true =>
      obtain ⟨dirs, heq, -⟩ := syncDir_spec hd time
      exact h.filter (by rw [heq]; rfl)
  | crash surviving => exact fun _ _ _ _ hm => absurd hm (List.not_mem_nil)

theorem run_writesFilled (config : FsConfig) (ops : List FsOp) :
    ((FsState.new config).run ops).WritesFilled := by
  suffices h : ∀ (ops : List FsOp) (s : FsState), s.WritesFilled → (s.run ops).WritesFilled from
    h ops _ fun _ _ _ _ hm => absurd hm List.not_mem_nil
  intro ops
  induction ops with
  | nil => exact fun _ h => h
  | cons op ops ih => exact fun s h => ih _ (h.apply op)

/-- These operations leave nothing of the stored bytes: there are none of either, or the last
operation cuts the file to nothing. -/
def Emptied (base : List UInt8) (ops : List PendingOp) : Prop :=
  ops = [] ∧ base = [] ∨ ∃ p time, ops.getLast? = some (.setLen p 0 time)

theorem view_eq_nil_iff {base : List UInt8} {ops : List PendingOp}
    (hdata : ∀ op ∈ ops, ∃ p, isDataOf p op = true)
    (hfilled : ∀ p offset data time, PendingOp.write p offset data time ∈ ops → data ≠ []) :
    view base ops = [] ↔ Emptied base ops := by
  rw [← List.length_eq_zero_iff, length_view]
  rcases List.eq_nil_or_concat ops with rfl | ⟨older, op, rfl⟩
  · simp [Emptied]
  · rw [List.concat_eq_append] at hdata hfilled ⊢
    have hlast : ∀ q time, (older ++ [op]).getLast? = some (.setLen q 0 time)
        ↔ op = .setLen q 0 time := by simp
    simp only [Emptied, List.append_eq_nil_iff, List.cons_ne_nil, and_false, false_and, false_or,
      hlast]
    rw [List.foldl_append, List.foldl_cons, List.foldl_nil]
    have hmem : op ∈ older ++ [op] := by simp
    cases op with
    | write p offset data time =>
      have := List.length_pos_iff.mpr (hfilled p offset data time hmem)
      simp only [lenStep, reduceCtorEq, exists_false, iff_false]
      omega
    | setLen p len time => simp [lenStep]
    | _ =>
      obtain ⟨p, hp⟩ := hdata _ hmem
      cases hp

/-- Where the bytes of stored files are after one directory operation. -/
def moveBytes (m : Path → Option (List UInt8)) (op : PendingOp) (q : Path) :
    Option (List UInt8) :=
  match op with
  | .createFile p _ _ => if p = q then some ((m p).getD []) else m q
  | .createHardLink p target _ => if p = q then (m target).or (m q) else m q
  | .rename src dst =>
    match m src with
    | some c => if dst = q then some c else if src = q then none else m q
    | none => m q
  | .removeFile p => if p = q then none else m q
  | _ => m q

/-- A flushed directory operation moves the bytes of whole files. -/
theorem applyOp_moveBytes {s : FsState} {d : Path} {op : PendingOp}
    (h : affectsDir d op = true) :
    (s.applyOpToPersisted op).storedAt = moveBytes s.storedAt op := by
  funext q
  cases op with
  | createFile p time mode =>
    by_cases hq : p = q
    · subst hq
      cases hg : s.persistedFiles.get? p <;>
        simp [applyOpToPersisted, moveBytes, storedAt, hg, FileData.withMode]
    · simp [applyOpToPersisted, moveBytes, storedAt, hq, Ne.symm hq]
  | createHardLink p target time =>
    simp only [applyOpToPersisted]
    split
    · rename_i hg
      simp [moveBytes, storedAt, hg]
    · rename_i f hg
      by_cases hq : p = q
      · subst hq
        simp [moveBytes, storedAt, hg]
      · by_cases hqt : q = target
        · subst hqt
          simp [moveBytes, storedAt, hq, Ne.symm hq, hg]
        · simp [moveBytes, storedAt, hq, Ne.symm hq, hqt]
  | rename src dst =>
    simp only [applyOpToPersisted]
    split
    · rename_i f hg
      by_cases hd : dst = q
      · subst hd
        simp [moveBytes, storedAt, hg]
      · by_cases hs : src = q
        · subst hs
          simp [moveBytes, storedAt, hg, hd, Ne.symm hd]
        · simp [moveBytes, storedAt, hg, hd, Ne.symm hd, hs, Ne.symm hs]
    · rename_i hg
      have hkeep : moveBytes s.storedAt (.rename src dst) q = s.storedAt q := by
        simp [moveBytes, storedAt, hg]
      rw [hkeep]
      split
      · rfl
      · split <;> rfl
  | removeFile p =>
    by_cases hq : p = q
    · subst hq
      simp [applyOpToPersisted, moveBytes, storedAt]
    · simp [applyOpToPersisted, moveBytes, storedAt, hq, Ne.symm hq]
  | createDir p time mode => rfl
  | createSymlink p target time => rfl
  | removeDir p => rfl
  | _ => cases h

theorem foldl_applyOp_moveBytes {d : Path} {log : List PendingOp}
    (h : ∀ op ∈ log, affectsDir d op = true) : ∀ {s : FsState},
      (log.foldl applyOpToPersisted s).storedAt = log.foldl moveBytes s.storedAt := by
  induction log with
  | nil => exact fun {s} => rfl
  | cons op log ih =>
    intro s
    rw [List.foldl_cons, List.foldl_cons, ih (fun o ho => h o (List.mem_cons_of_mem _ ho)),
      applyOp_moveBytes (h op List.mem_cons_self)]

/-- The bytes that the pending operations of the directory `d` leave at `p`, when what is queued
for `p` itself is stored first. -/
def leftAt (s : FsState) (p d : Path) : List UInt8 :=
  ((s.dirFlush d).foldl moveBytes (fun q => if q = p then some (s.applied p) else s.storedAt q)
    p).getD []

/-- Is `d` a directory still when there is an inode at `p`?  It is not where `d` is itself the
directory that pending renames took from `p`. -/
def staysDirectory (s : FsState) (p d : Path) : Bool :=
  entryKindFrom (fun q => if q = p then some .file else s.persistedKind q) s.pending.reverse d
    = some .directory

/-- Nothing is left of earlier files named `p`, neither for readers, now and after what is queued
for `p` itself is stored, nor in what the operations of its directory leave there. -/
def NothingLeft (s : FsState) (p d : Path) : Prop :=
  (∃ c, s.resolveContentPath p = some c
    ∧ Emptied (s.storedContent c) (s.dataAt c)
    ∧ Emptied (if c = p then s.applied p else s.storedContent c)
        ((s.dataAt c).filter fun op => !isDataOf p op))
    ∧ (s.staysDirectory p d = true → s.leftAt p d = [])

/-- The file is empty when it was created, after a sync of the file, and after a sync of its
directory. -/
def NewFileEmpty (s : FsState) (p d : Path) (time : Duration) (mode : Nat) (now : Duration) :
    Prop :=
  let created := s.createFileWithMode p time mode
  let synced := (created.syncFile p).1
  created.Shows p [] ∧ synced.Shows p [] ∧ (synced.syncDir d now).1.Shows p []

section NewFile

variable {s : FsState} {p d : Path} (time : Duration) (mode : Nat)

theorem created_fileExists : (s.push (.createFile p time mode)).fileExists p = true := by
  rw [fileExists_iff, entryKind_push]
  simp [kindStep]

theorem created_applied : (s.push (.createFile p time mode)).applied p = s.applied p := by
  simp only [applied, push, List.filter_append]
  rw [List.filter_cons_of_neg (by simp [isDataOf]), List.filter_nil, List.append_nil]
  rfl

theorem created_dataAt (c : Path) :
    (s.push (.createFile p time mode)).dataAt c = s.dataAt c := by
  rw [push_dataAt rfl, List.filter_cons_of_neg (by simp [isDataAt]), List.filter_nil,
    List.append_nil]

/-- What readers see of a new file, before and after a sync of it. -/
theorem created_content : (s.push (.createFile p time mode)).content p
    = (s.resolveContentPath p).map fun c => view (s.storedContent c) (s.dataAt c) := by
  rw [content_eq_view, push_resolveContentPath rfl]
  simp only [created_dataAt]
  rfl

theorem synced_content : ((s.push (.createFile p time mode)).flushFile p).1.content p
    = (s.resolveContentPath p).map fun c =>
        view (if c = p then s.applied p else s.storedContent c)
          ((s.dataAt c).filter fun op => !isDataOf p op) := by
  have hex := created_fileExists (s := s) (p := p) time mode
  rw [content_eq_view, flushFile_resolveContentPath hex, push_resolveContentPath rfl]
  simp only [flushFile_dataAt hex, flushFile_storedContent hex, created_dataAt, created_applied]
  rfl

theorem synced_storedAt : ((s.push (.createFile p time mode)).flushFile p).1.storedAt
    = fun q => if q = p then some (s.applied p) else s.storedAt q := by
  have hex := created_fileExists (s := s) (p := p) time mode
  obtain ⟨files, f, heq, hf, hcontent, hother⟩ := flushFile_spec hex
  funext q
  rw [heq]
  split
  · rename_i hq
    subst hq
    rw [created_applied] at hcontent
    simp only [storedAt, hf, Option.map_some, hcontent]
  · rename_i hq
    simp only [storedAt, hother q hq]
    rfl

theorem synced_persistedKind : ((s.push (.createFile p time mode)).flushFile p).1.persistedKind
    = fun q => if q = p then some .file else s.persistedKind q := by
  have hex := created_fileExists (s := s) (p := p) time mode
  obtain ⟨files, f, heq, hf, -, hother⟩ := flushFile_spec hex
  funext q
  rw [heq]
  split
  · rename_i hq
    subst hq
    have hc : files.contains q = true := IndexMap.contains_iff.mpr ⟨f, hf⟩
    simp [persistedKind, hc]
  · rename_i hq
    have hc : files.contains q = s.persistedFiles.contains q := by
      rw [Bool.eq_iff_iff, IndexMap.contains_iff, IndexMap.contains_iff, hother q hq]
      rfl
    simp only [persistedKind, hc]
    rfl

variable (hd : p.parent = some d)

include hd

/-- Whether the directory is there still to be synced. -/
theorem synced_dirExists :
    ((s.push (.createFile p time mode)).flushFile p).1.dirExists d = s.staysDirectory p d := by
  have hex := created_fileExists (s := s) (p := p) time mode
  have hne : ¬ p = d := fun e => Path.parent_ne_self (e ▸ hd)
  have hkind : ((s.push (.createFile p time mode)).flushFile p).1.entryKind d
      = entryKindFrom (fun q => if q = p then some .file else s.persistedKind q)
          s.pending.reverse d := by
    rw [entryKind_eq_replay, flushFile_pending hex, replay_dropData, synced_persistedKind,
      entryKindFrom_reverse]
    simp only [push, kindOps.replay_snoc, kindOps_step, kindStep, if_neg hne]
  simp only [dirExists, staysDirectory, hkind]

theorem synced_dirFlush : ((s.push (.createFile p time mode)).flushFile p).1.dirFlush d
    = s.dirFlush d ++ [.createFile p time mode] := by
  have hex := created_fileExists (s := s) (p := p) time mode
  have hdir : ∀ op, (affectsDir d op && !isDataOf p op) = affectsDir d op := by
    intro op
    cases op <;> simp [affectsDir, isDataOf]
  rw [dirFlush, flushFile_pending hex, List.filter_filter]
  simp only [hdir, push, List.filter_append, dirFlush]
  rw [List.filter_cons_of_pos (by simp [affectsDir, hd]), List.filter_nil]

/-- After a sync of its directory a file shows what the directory's operations left there. -/
theorem dirSynced_content (hstays : s.staysDirectory p d = true) (now : Duration) :
    (((s.push (.createFile p time mode)).flushFile p).1.syncDir d now).1.content p
      = some (s.leftAt p d) := by
  have hex := created_fileExists (s := s) (p := p) time mode
  have hpend := flushFile_pending hex
  have hat := synced_storedAt (s := s) (p := p) time mode
  have hfl := synced_dirFlush (s := s) time mode hd
  have hdex := (synced_dirExists (s := s) time mode hd).trans hstays
  generalize ((s.push (.createFile p time mode)).flushFile p).1 = synced at hpend hat hfl hdex
  obtain ⟨dirs, heq, -⟩ := syncDir_spec hdex now
  rw [heq]
  have hkeep : ∀ op ∈ synced.dirKeep d, affectsDir d op = false := fun op hop =>
    (mem_dirKeep.mp hop).2
  -- nothing that names `p` stays in the queue
  have hmoved : ∀ src, PendingOp.rename src p ∉ synced.dirKeep d := fun src hm => by
    simpa [affectsDir, hd] using hkeep _ hm
  have hlinked : ∀ target time, PendingOp.createHardLink p target time ∉ synced.dirKeep d :=
    fun target time hm => by simpa [affectsDir, hd] using hkeep _ hm
  have hpull : pullAll (synced.dirKeep d) p = p :=
    (pullAll_cases _ p).resolve_right fun hsome => hsome.1.elim hmoved
  have hnodata : (synced.dirKeep d).filter (isDataOf p) = [] := by
    rw [List.filter_eq_nil_iff]
    intro op hop
    have hin := (mem_dirKeep.mp hop).1
    rw [hpend] at hin
    simpa using (List.mem_filter.mp hin).2
  have hbytes : ((synced.dirFlush d).foldl applyOpToPersisted synced).storedAt p
      = some (s.leftAt p d) := by
    rw [foldl_applyOp_moveBytes (d := d) (fun op hop => (mem_dirFlush.mp hop).2), hfl, hat,
      List.foldl_append, List.foldl_cons, List.foldl_nil, moveBytes, if_pos rfl]
    rfl
  rw [content, resolveContentPath_of_no_link hlinked]
  simp only [hpull, Option.map_some]
  rw [contentAt_eq_view, dataAt_eq_isDataOf hmoved]
  simp only [hnodata, view_nil]
  exact congrArg some (storedContent_of_storedAt hbytes)

end NewFile

theorem shows_nil_iff {s : FsState} {p : Path} {r : Option Path} {base : Path → List UInt8}
    {ops : Path → List PendingOp} (hc : s.content p = r.map fun c => view (base c) (ops c))
    (hdata : ∀ c, ∀ op ∈ ops c, ∃ p, isDataOf p op = true)
    (hfilled : ∀ c p offset data time, PendingOp.write p offset data time ∈ ops c → data ≠ []) :
    s.Shows p [] ↔ ∃ c, r = some c ∧ Emptied (base c) (ops c) := by
  rw [shows_iff, hc, Option.map_eq_some_iff]
  simp only [view_eq_nil_iff (hdata _) (hfilled _)]

theorem isDataOf_of_mem_dataAt {s : FsState} {c : Path} {op : PendingOp} (h : op ∈ s.dataAt c) :
    ∃ p, isDataOf p op = true := by
  have hat := (List.mem_filter.mp h).2
  cases op with
  | write p offset data time => exact ⟨p, by simp [isDataOf]⟩
  | setLen p len time => exact ⟨p, by simp [isDataOf]⟩
  | _ => cases hat

/-- **Exactly when a new file is empty.**  In every state that calls can lead to, a file created
at `p` is empty, and stays empty when it and its directory are synced, if and only if nothing
is left of earlier files of that name. -/
theorem new_file_empty_iff (config : FsConfig) (ops : List FsOp) {p d : Path}
    (hd : p.parent = some d) (time : Duration) (mode : Nat) (now : Duration) :
    ((FsState.new config).run ops).NewFileEmpty p d time mode now
      ↔ ((FsState.new config).run ops).NothingLeft p d := by
  have hfilled := run_writesFilled config ops
  generalize (FsState.new config).run ops = s at hfilled
  have hwrites : ∀ c p offset data time,
      PendingOp.write p offset data time ∈ s.dataAt c → data ≠ [] :=
    fun c p offset data time hm => hfilled p offset data time (List.mem_filter.mp hm).1
  have h1 := shows_nil_iff (created_content (s := s) (p := p) time mode)
    (fun c op hop => isDataOf_of_mem_dataAt hop) hwrites
  have h2 := shows_nil_iff (synced_content (s := s) (p := p) time mode)
    (fun c op hop => isDataOf_of_mem_dataAt (List.mem_filter.mp hop).1)
    (fun c p offset data time hm => hwrites c p offset data time (List.mem_filter.mp hm).1)
  -- a sync of the directory that fails changes nothing
  have h3 : (((s.push (.createFile p time mode)).flushFile p).1.syncDir d now).1.Shows p []
      ↔ if s.staysDirectory p d = true then s.leftAt p d = []
        else ((s.push (.createFile p time mode)).flushFile p).1.Shows p [] := by
    split
    · rename_i hstays
      rw [shows_iff, dirSynced_content time mode hd hstays now, Option.some_inj]
    · rename_i hgone
      rw [syncDir_err ((synced_dirExists time mode hd).trans (Bool.not_eq_true _ ▸ hgone))]
  unfold NewFileEmpty NothingLeft
  simp only [createFileWithMode, syncFile]
  rw [h3, h2, h1]
  constructor
  · rintro ⟨⟨c, hc, he⟩, ⟨c', hc', he'⟩, hlast⟩
    obtain rfl : c = c' := Option.some_inj.mp (hc.symm.trans hc')
    refine ⟨⟨c, hc, he, he'⟩, fun hstays => ?_⟩
    rwa [if_pos hstays] at hlast
  · rintro ⟨⟨c, hc, he, he'⟩, hlast⟩
    refine ⟨⟨c, hc, he⟩, ⟨c, hc, he'⟩, ?_⟩
    split
    · rename_i hstays
      exact hlast hstays
    · exact ⟨c, hc, he'⟩

/-- A file written and unlinked, both still pending. -/
def unlinked : List FsOp :=
  [.createFile (Path.abs ["f"]) 0 0o644, .writeFile (Path.abs ["f"]) 0 [7] 0,
    .unlink (Path.abs ["f"])]

/-- The next file of the name has its bytes. -/
theorem new_file_shows_old_bytes :
    let s := (FsState.new FsConfig.default).run unlinked
    s.entryKind (Path.abs ["f"]) = none ∧ s.dirExists Path.root = true
      ∧ (s.createFileWithMode (Path.abs ["f"]) 1 0o644).readFile (Path.abs ["f"]) 2 0 = some [7]
      ∧ ¬ s.NewFileEmpty (Path.abs ["f"]) Path.root 1 0o644 2 := by
  intro s
  have hread : (s.createFileWithMode (Path.abs ["f"]) 1 0o644).readFile (Path.abs ["f"]) 2 0
      = some [7] := by decide
  refine ⟨by decide, by decide, hread, fun h => ?_⟩
  have := h.1.bytes 2 0
  rw [hread] at this
  exact absurd this (by decide)

/-- Truncated before it was unlinked, the old file leaves nothing. -/
theorem new_file_empty_iff_truncated :
    let s := (FsState.new FsConfig.default).run (unlinked.take 2
      ++ [.setFileLen (Path.abs ["f"]) 0 1, .unlink (Path.abs ["f"])])
    s.entryKind (Path.abs ["f"]) = none ∧ s.NewFileEmpty (Path.abs ["f"]) Path.root 1 0o644 2 := by
  intro s
  have hiff := new_file_empty_iff FsConfig.default (unlinked.take 2
    ++ [.setFileLen (Path.abs ["f"]) 0 1, .unlink (Path.abs ["f"])])
    (p := Path.abs ["f"]) (d := Path.root) rfl 1 0o644 2
  refine ⟨by decide, hiff.mpr ⟨⟨Path.abs ["f"], by decide, Or.inr ⟨Path.abs ["f"], 1, by decide⟩,
    ?_⟩, ?_⟩⟩
  · exact Or.inl (by decide)
  · exact fun _ => by decide

end FsState

end Turmoil.Fs
