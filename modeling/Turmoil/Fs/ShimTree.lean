/-
# The tree under the shim's calls

`TreeInv` holds of a new filesystem and is kept by every shim call that meets `TreeSafe`, so what
exists forms a tree after every run of such calls.  Most calls are one `FsState` method; the
loops are `create_dir_all`, which makes the missing directories from the top down, and
`remove_dir_all`, which empties a directory before it removes it.

For `remove_dir_all` the argument is that the recursion only ever takes names away, and only
below the directory it was given; so a listing that showed everything at the start still shows
everything that is left, and a loop that succeeds over such a listing leaves nothing.
-/
import Turmoil.Fs.Tree

namespace Turmoil.Fs

open FsState

/-! ## 1. Results without their error -/

@[simp] theorem FsResult.mapErr_fst (r : FsResult) (f : FsError → ShimError) :
    (r.mapErr f).1 = r.1 := by
  obtain ⟨s, _ | _⟩ := r <;> rfl

/-! ## 2. `create_dir_all` and `open` -/

namespace Shim

theorem missingDirs_hasRoot {s : FsState} : ∀ {fuel : Nat} {p q : Path}, p.hasRoot = true →
    q ∈ missingDirs s fuel p → q.hasRoot = true := by
  intro fuel
  induction fuel with
  | zero => exact fun _ hq => nomatch hq
  | succ fuel ih =>
    intro p q hp hq
    simp only [missingDirs] at hq
    split at hq
    · cases hq
    · split at hq
      · cases hq
      · rcases List.mem_cons.mp hq with rfl | hq
        · exact hp
        · split at hq
          · rename_i parent hpar
            exact ih ((Path.parent_hasRoot hpar).trans hp) hq
          · cases hq

/-- What every `mkdir` keeps, the loop keeps. -/
theorem createEach_keeps {inv : FsState → Prop} (now : Duration) : ∀ {dirs : List Path} {s : FsState},
    (∀ s, ∀ dir ∈ dirs, inv s → inv (s.mkdir dir now).1) → inv s →
      inv (createEach now s dirs).1 := by
  intro dirs
  induction dirs with
  | nil => exact fun _ h => h
  | cons dir dirs ih =>
    intro s hmk h
    have hrest : ∀ s, ∀ q ∈ dirs, inv s → inv (s.mkdir q now).1 :=
      fun s q hq => hmk s q (List.mem_cons_of_mem _ hq)
    have hdir := hmk s dir List.mem_cons_self h
    simp only [createEach]
    split
    · exact ih hrest h
    · cases hm : s.mkdir dir now with
      | mk t r =>
        rw [hm] at hdir
        cases r with
        | ok _ => exact ih hrest hdir
        | error e => exact hdir

section RemoveKeeps

variable {inv : FsState → Prop} {empty : FsState → Path → ShimResult Unit}

/-- What `unlink`, `rmdir` and emptying a subdirectory keep, removing an entry keeps. -/
theorem removeEntry_keeps (hunlink : ∀ s p, inv s → inv (s.unlink p).1)
    (hrmdir : ∀ s p, inv s → inv (s.rmdir p).1) (hempty : ∀ s p, inv s → inv (empty s p).1)
    {s : FsState} (h : inv s) (entry : Path) : inv (removeEntry empty s entry).1 := by
  unfold removeEntry
  split
  · have hsub := hempty s entry h
    cases hr : empty s entry with
    | mk t r =>
      rw [hr] at hsub
      cases r with
      | error e => exact hsub
      | ok _ =>
        simp only [FsResult.mapErr_fst]
        exact hrmdir t entry hsub
  · split
    · simp only [FsResult.mapErr_fst]
      exact hunlink s entry h
    · exact h

theorem removeEach_keeps (hunlink : ∀ s p, inv s → inv (s.unlink p).1)
    (hrmdir : ∀ s p, inv s → inv (s.rmdir p).1) (hempty : ∀ s p, inv s → inv (empty s p).1) :
    ∀ (l : List Path) {s : FsState}, inv s → inv (removeEach empty s l).1 := by
  intro l
  induction l with
  | nil => exact fun h => h
  | cons entry l ih =>
    intro s h
    have hentry := removeEntry_keeps hunlink hrmdir hempty h entry
    unfold removeEach
    cases hr : removeEntry empty s entry with
    | mk t r =>
      rw [hr] at hentry
      cases r with
      | error e => exact hentry
      | ok _ => exact ih hentry

/-- **What `unlink` and `rmdir` keep, `remove_dir_all` keeps.** -/
theorem removeDirAll_keeps (hunlink : ∀ s p, inv s → inv (s.unlink p).1)
    (hrmdir : ∀ s p, inv s → inv (s.rmdir p).1) (order : HashOrder) {s : FsState} (h : inv s)
    (path : Path) : inv (removeDirAll order s path).1 := by
  have hcontents : ∀ fuel s p, inv s → inv (removeDirContents order fuel s p).1 := by
    intro fuel
    induction fuel with
    | zero => exact fun s p h => h
    | succ fuel ih => exact fun s p h => removeEach_keeps hunlink hrmdir ih _ h
  have hsub := hcontents (maxDepth s + 1) s path h
  unfold removeDirAll
  split
  · exact h
  · cases hr : removeDirContents order (maxDepth s + 1) s path with
    | mk t r =>
      rw [hr] at hsub
      cases r with
      | error e => exact hsub
      | ok _ =>
        simp only [FsResult.mapErr_fst]
        exact hrmdir t path hsub

end RemoveKeeps

theorem createEach_treeInv (now : Duration) {dirs : List Path} {s : FsState} (h : s.TreeInv)
    (hr : ∀ q ∈ dirs, q.hasRoot = true) : (createEach now s dirs).1.TreeInv :=
  createEach_keeps now (fun _ dir hd ht => ht.mkdir (hr dir hd) now 0o755) h

theorem createDirAll_treeInv {s : FsState} {p : Path} (h : s.TreeInv) (hr : p.hasRoot = true)
    (now : Duration) : (createDirAll s p now).1.TreeInv :=
  createEach_treeInv now h fun _ hq => missingDirs_hasRoot hr (List.mem_reverse.mp hq)

theorem finishOpen_treeInv {s : FsState} (h : s.TreeInv) (o : OpenOptions) (r : Path)
    (now : Duration) : (finishOpen s o r now).1.TreeInv := by
  have hlen : (if o.truncate && o.write then s.setFileLen r 0 now else s).TreeInv := by
    split
    · exact (h.congr (t := s.invalidateCache r) rfl rfl rfl rfl rfl).pushData rfl trivial
    · exact h
  simp only [finishOpen, allocFd]
  split <;> exact hlen.congr rfl rfl rfl rfl rfl

/-- The condition on `open`: what it creates is absolute and not there yet. -/
def OpenSafe (s : FsState) (o : OpenOptions) (path : Path) : Prop :=
  ∀ r, openTarget s path = .ok r → s.fileExists r = false → (o.create || o.createNew) = true →
    r.hasRoot = true ∧ s.entryKind r = none

theorem openFile_treeInv {s : FsState} {o : OpenOptions} {path : Path} (h : s.TreeInv)
    (hsafe : OpenSafe s o path) (now : Duration) : (openFile s o path now).1.TreeInv := by
  cases ht : openTarget s path with
  | error e =>
    simp only [openFile, ht]
    exact h
  | ok r =>
    simp only [openFile, ht]
    split
    · exact h
    · split
      · rename_i hno
        split
        · rename_i hc
          split
          · exact h
          · rename_i hpar
            obtain ⟨hr, hnone⟩ := hsafe r ht (by simpa using hno) hc
            exact finishOpen_treeInv (h.createFile hr hnone (by simpa using hpar) now o.mode) o r now
        · exact h
      · exact finishOpen_treeInv h o r now

/-! ## 3. Writes and syncs through a handle -/

/-- The condition on a call that syncs through a handle. -/
def HandleFits (s : FsState) (f : File) : Prop :=
  ∀ path, handlePath s f = .ok path → s.fileExists path = true → s.InodeFits path

/-- A pending write takes part in no name. -/
theorem InodeFits.writeFile {s : FsState} {p : Path} (h : s.InodeFits p) (offset : Nat)
    (data : List UInt8) (time : Duration) : (s.writeFile p offset data time).InodeFits p := by
  simp only [FsState.writeFile]
  split
  · exact h
  · have hmem : ∀ {op}, op ∈ (s.push (.write p offset data time)).pending →
        op ∈ s.pending ∨ op = .write p offset data time := fun hm => by
      simpa [FsState.push] using hm
    rcases h with h | ⟨h1, h2, h3⟩
    · exact Or.inl h
    · refine Or.inr ⟨h1, fun op hop => ?_, h3.imp (fun h3 q hq => ?_) (fun h3 x y hxy => ?_)⟩
      · rcases hmem hop with hop | rfl
        · exact h2 op hop
        · trivial
      · rcases hmem hq with hq | hq
        · exact h3 q hq
        · cases hq
      · rcases hmem hxy with hxy | hxy
        · exact h3 x y hxy
        · cases hxy

theorem writeFile_treeInv {s : FsState} (h : s.TreeInv) (p : Path) (offset : Nat)
    (data : List UInt8) (time : Duration) : (s.writeFile p offset data time).TreeInv := by
  simp only [FsState.writeFile]
  split
  · exact h
  · exact h.pushData rfl trivial

theorem writeFile_fileExists (s : FsState) (p : Path) (offset : Nat) (data : List UInt8)
    (time : Duration) : (s.writeFile p offset data time).fileExists p = s.fileExists p := by
  simp only [FsState.writeFile]
  split
  · rfl
  · have hk : (s.push (.write p offset data time)).entryKind p = s.entryKind p := by
      rw [entryKind_push]
      rfl
    simp only [FsState.fileExists, hk]

theorem writeAt_treeInv {s : FsState} (h : s.TreeInv) (f : File) (offset : Nat) (buf : List UInt8)
    (ptrAligned ioError flush : Bool) (now : Duration)
    (hsafe : flush = true → HandleFits s f) :
    (writeAt s f offset buf ptrAligned ioError flush now).1.TreeInv := by
  unfold writeAt
  split
  · exact h
  split
  · exact h
  split
  · exact h
  cases hp : handlePath s f with
  | error e => exact h
  | ok path =>
    dsimp only
    cases hl : s.fileLen path with
    | none => exact h
    | some len =>
      dsimp only
      split
      · exact h
      · -- the bytes were accepted
        have hw := writeFile_treeInv h path offset buf now
        split
        · rename_i hflush
          refine hw.flushFile fun hex => InodeFits.writeFile ?_ offset buf now
          rw [writeFile_fileExists] at hex
          exact hsafe hflush path hp hex
        · exact hw

theorem syncAll_treeInv {s : FsState} (h : s.TreeInv) {f : File} (hsafe : HandleFits s f) :
    (syncAll s f).1.TreeInv := by
  unfold syncAll
  cases hp : handlePath s f with
  | error e => exact h
  | ok path =>
    simp only [FsResult.mapErr_fst]
    exact h.flushFile (hsafe path hp)

/-! ## 4. `remove_dir_all` -/

/-- Names were only taken away: the maps are as they were and the log only grew. -/
structure Shrinks (s t : FsState) : Prop where
  has : t.persistedHas = s.persistedHas
  pending : s.pending ⊆ t.pending
  kind : ∀ q, t.entryKind q = s.entryKind q ∨ t.entryKind q = none

theorem Shrinks.refl (s : FsState) : Shrinks s s := ⟨rfl, fun _ h => h, fun _ => Or.inl rfl⟩

theorem Shrinks.trans {s t u : FsState} (h₁ : Shrinks s t) (h₂ : Shrinks t u) : Shrinks s u where
  has := h₂.has.trans h₁.has
  pending := fun _ h => h₂.pending (h₁.pending h)
  kind := fun q => by
    rcases h₂.kind q with h | h
    · rw [h]
      exact h₁.kind q
    · exact Or.inr h

theorem Shrinks.absent {s t : FsState} (h : Shrinks s t) {q : Path} (hq : s.entryKind q = none) :
    t.entryKind q = none := by
  rcases h.kind q with h | h
  · rw [h, hq]
  · exact h

/-- What is left is listed if it was. -/
theorem Shrinks.listed {s t : FsState} (h : Shrinks s t) {q : Path} (hq : t.entryKind q ≠ none)
    (hl : s.Listed q) : t.Listed q := by
  obtain ⟨k, hk, hl⟩ := hl
  have hkind : t.entryKind q = s.entryKind q := (h.kind q).resolve_right hq
  refine ⟨k, hkind.trans hk, hl.imp (fun hp => ?_) (fun ⟨op, hop, hn⟩ => ⟨op, h.pending hop, hn⟩)⟩
  rw [h.has]
  exact hp

/-- A listing at or below `x` misses nothing. -/
def Shown (s : FsState) (x : Path) : Prop :=
  ∀ q, x ∈ q.ancestors → s.entryKind q ≠ none → s.Listed q

theorem Shown.mono {s t : FsState} {x y : Path} (h : Shown s x) (hs : Shrinks s t)
    (hxy : x ∈ y.ancestors ∨ y = x) : Shown t y := by
  intro q hq hk
  have hsk : s.entryKind q ≠ none := fun e => hk (hs.absent e)
  refine hs.listed hk (h q ?_ hsk)
  rcases hxy with hxy | rfl
  · exact Path.ancestors_trans hxy hq
  · exact hq

/-- What emptying `x` does to the state: names vanish below `x` only, the tree is kept, and on
success nothing is left in `x`. -/
structure Empties (x : Path) (s : FsState) (r : ShimResult Unit) : Prop where
  inv : r.1.TreeInv
  shrinks : Shrinks s r.1
  outside : ∀ q, x ∉ q.ancestors → r.1.entryKind q = s.entryKind q
  done : r.2 = .ok () → r.1.NoChild x

/-- What removing the entry `e` does: names vanish at and below `e` only. -/
structure Removes (e : Path) (s : FsState) (r : ShimResult Unit) : Prop where
  inv : r.1.TreeInv
  shrinks : Shrinks s r.1
  outside : ∀ q, q ≠ e → e ∉ q.ancestors → r.1.entryKind q = s.entryKind q
  done : r.2 = .ok () → r.1.entryKind e = none

/-- Queueing a removal. -/
theorem Removes.push {s t : FsState} {e : Path} {op : PendingOp}
    (ht : (t.push op).TreeInv) (hs : Shrinks s t)
    (hout : ∀ q, q ≠ e → e ∉ q.ancestors → t.entryKind q = s.entryKind q)
    (hstep : kindStep t.entryKind op = Function.update t.entryKind e none) :
    Removes e s (t.push op, .ok ()) := by
  have hkind : ∀ q, (t.push op).entryKind q = Function.update t.entryKind e none q := by
    intro q
    rw [entryKind_push, hstep]
  refine ⟨ht, hs.trans ⟨rfl, fun _ h => List.mem_append_left _ h, fun q => ?_⟩,
    fun q hq hb => ?_, fun _ => ?_⟩
  · by_cases hq : q = e
    · subst hq
      exact Or.inr (by rw [hkind, Function.update_self])
    · exact Or.inl (by rw [hkind, Function.update_of_ne hq])
  · rw [hkind, Function.update_of_ne hq]
    exact hout q hq hb
  · rw [hkind, Function.update_self]

theorem removeEntry_removes {empty : FsState → Path → ShimResult Unit} {s : FsState} {e x : Path}
    (hempty : ∀ t, t.TreeInv → Shown t e → Empties e t (empty t e))
    (h : s.TreeInv) (hs : Shown s e) (he : e.parent = some x) :
    Removes e s (removeEntry empty s e) := by
  have hroot : e ≠ Path.root := by
    rintro rfl
    cases he
  unfold removeEntry
  split
  · -- a directory: emptied, then removed
    have hE := hempty s h hs
    cases hr : empty s e with
    | mk t r =>
      rw [hr] at hE
      have hout : ∀ q, q ≠ e → e ∉ q.ancestors → t.entryKind q = s.entryKind q :=
        fun q _ hb => hE.outside q hb
      cases r with
      | error er => exact ⟨hE.inv, hE.shrinks, hout, fun h => by cases h⟩
      | ok _ =>
        have hno : t.NoChild e := hE.done rfl
        have hinv := hE.inv.rmdir hroot fun _ _ => hno
        dsimp only
        rcases t.rmdir_cases e with ⟨er, hrm⟩ | ⟨hrm, -, -⟩ <;> rw [hrm]
        · exact ⟨hE.inv, hE.shrinks, hout, fun h => by cases h⟩
        · rw [hrm] at hinv
          refine Removes.push hinv hE.shrinks hout ?_
          funext q
          simp [kindStep, Function.update_apply, eq_comm]
  · rename_i hnd
    split
    · -- a file or a symlink
      have hinv := h.unlink e
      rcases s.unlink_cases e with ⟨er, hun⟩ | ⟨hun, -⟩ <;> rw [hun]
      · exact ⟨h, Shrinks.refl s, fun _ _ _ => rfl, fun h => by cases h⟩
      · rw [hun] at hinv
        refine Removes.push (t := s.invalidateCache e) hinv
          ⟨rfl, fun _ h => h, fun _ => Or.inl rfl⟩ (fun _ _ _ => rfl) ?_
        funext q
        simp [kindStep, Function.update_apply, eq_comm]
    · -- nothing there any more
      rename_i hno
      refine ⟨h, Shrinks.refl s, fun _ _ _ => rfl, fun _ => ?_⟩
      simp only [Bool.or_eq_true, not_or, Bool.not_eq_true] at hno hnd
      exact entryKind_eq_none_iff.mpr ⟨hno.1, hnd, hno.2⟩

/-- **The loop of `remove_dir_contents_recursive`** removes the entries it is given. -/
theorem removeEach_removes {empty : FsState → Path → ShimResult Unit} {x : Path}
    (hempty : ∀ e t, e.parent = some x → t.TreeInv → Shown t e → Empties e t (empty t e)) :
    ∀ {l : List Path} {s : FsState}, s.TreeInv → Shown s x →
      (∀ e ∈ l, e.parent = some x) →
      (removeEach empty s l).1.TreeInv ∧ Shrinks s (removeEach empty s l).1
        ∧ (∀ q, x ∉ q.ancestors → (removeEach empty s l).1.entryKind q = s.entryKind q)
        ∧ ((removeEach empty s l).2 = .ok () →
          ∀ e ∈ l, (removeEach empty s l).1.entryKind e = none) := by
  intro l
  induction l with
  | nil => exact fun h _ _ => ⟨h, Shrinks.refl _, fun _ _ => rfl, fun _ _ he => nomatch he⟩
  | cons e l ih =>
    intro s h hs hpar
    have he := hpar e List.mem_cons_self
    have hxe : x ∈ e.ancestors := Path.parent_mem_ancestors he
    have hR := removeEntry_removes (hempty e · he) h (hs.mono (Shrinks.refl s) (Or.inl hxe)) he
    -- what is not below `x` is neither `e` nor below `e`
    have hout : ∀ q, x ∉ q.ancestors →
        (removeEntry empty s e).1.entryKind q = s.entryKind q := by
      intro q hq
      refine hR.outside q ?_ ?_
      · rintro rfl
        exact hq hxe
      · exact fun hb => hq (Path.ancestors_trans hxe hb)
    unfold removeEach
    cases hr : removeEntry empty s e with
    | mk t r =>
      rw [hr] at hR hout
      cases r with
      | error er => exact ⟨hR.inv, hR.shrinks, hout, fun h => by cases h⟩
      | ok _ =>
        obtain ⟨h1, h2, h3, h4⟩ := ih hR.inv (hs.mono hR.shrinks (Or.inr rfl))
          (fun e' he' => hpar e' (List.mem_cons_of_mem _ he'))
        refine ⟨h1, hR.shrinks.trans h2, fun q hq => (h3 q hq).trans (hout q hq), fun hok e' he' => ?_⟩
        rcases List.mem_cons.mp he' with rfl | he'
        · exact h2.absent (hR.done rfl)
        · exact h4 hok e' he'

/-- **`remove_dir_contents_recursive` empties a directory whose listings miss nothing.** -/
theorem removeDirContents_empties (order : HashOrder) : ∀ (fuel : Nat) {s : FsState} {x : Path},
    s.TreeInv → Shown s x → Empties x s (removeDirContents order fuel s x) := by
  intro fuel
  induction fuel with
  | zero => exact fun h _ => ⟨h, Shrinks.refl _, fun _ _ => rfl, fun h => by cases h⟩
  | succ fuel ih =>
    intro s x h hs
    have hmem : ∀ e, e ∈ order.shuffle (s.dirEntries x) ↔ e ∈ s.dirEntries x :=
      fun e => (order.perm _).mem_iff
    obtain ⟨h1, h2, h3, h4⟩ := removeEach_removes (x := x) (fun e t _ ht hst => ih ht hst) h hs
      (l := order.shuffle (s.dirEntries x))
      (fun e he => (mem_dirEntries.mp ((hmem e).mp he)).1)
    refine ⟨h1, h2, h3, fun hok q hq => ?_⟩
    -- a child was listed, so removed, or was not there to begin with
    by_cases hex : s.entryKind q = none
    · exact h2.absent hex
    · have hl := hs q (Path.parent_mem_ancestors hq) hex
      exact h4 hok q ((hmem q).mpr (mem_dirEntries.mpr ⟨hq, hl⟩))

theorem removeDirAll_treeInv (order : HashOrder) {s : FsState} {p : Path} (h : s.TreeInv)
    (hroot : p ≠ Path.root) (hs : Shown s p) : (removeDirAll order s p).1.TreeInv := by
  have hE := removeDirContents_empties order (maxDepth s + 1) h hs
  unfold removeDirAll
  split
  · exact h
  · cases hr : removeDirContents order (maxDepth s + 1) s p with
    | mk t r =>
      rw [hr] at hE
      cases r with
      | error er => exact hE.inv
      | ok _ =>
        simp only [FsResult.mapErr_fst]
        exact hE.inv.rmdir hroot fun _ _ => hE.done rfl

end Shim

/-! ## 5. Every run of shim calls -/

namespace FsState

/-- The condition on a shim call under which it keeps the tree. -/
def TreeSafe (s : FsState) : ShimOp → Prop
  | .createDir path _ => path.hasRoot = true
  | .createDirAll path _ => path.hasRoot = true
  | .openFile options path _ => Shim.OpenSafe s options path
  | .writeAt file _ _ _ _ flush _ => flush = true → Shim.HandleFits s file
  | .rename src dst =>
    s.parentExists dst = true → s.entryKind src ≠ none → s.RenameSafe src dst
  | .removeFile _ => True
  | .removeDir path => path ≠ Path.root
    ∧ (s.entryKind path = some .directory → s.dirHasChildren path = false → s.NoChild path)
  | .removeDirAll _ path => path ≠ Path.root ∧ Shim.Shown s path
  | .symlink _ link _ => link.hasRoot = true
  | .hardLink _ link _ => link.hasRoot = true
  | .syncAll file => Shim.HandleFits s file
  | .syncDir path _ => s.dirExists path = true → s.SyncDirSafe path
  | .crash _ => True

/-- **One call keeps the tree**, in both halves. -/
theorem TreeInv.shim {s : FsState} (h : s.TreeInv) {op : ShimOp} (hop : s.TreeSafe op) :
    (s.shim op).TreeInv := by
  cases op with
  | createDir path now =>
    simp only [FsState.shim, Shim.createDir, FsResult.mapErr_fst]
    exact h.mkdir hop now 0o755
  | createDirAll path now => exact Shim.createDirAll_treeInv h hop now
  | openFile options path now => exact Shim.openFile_treeInv h hop now
  | writeAt file offset buf ptrAligned ioError flush now =>
    exact Shim.writeAt_treeInv h file offset buf ptrAligned ioError flush now hop
  | rename src dst =>
    simp only [FsState.shim, Shim.rename, FsResult.mapErr_fst]
    exact h.rename hop
  | removeFile path =>
    simp only [FsState.shim, Shim.removeFile, FsResult.mapErr_fst]
    exact h.unlink path
  | removeDir path =>
    simp only [FsState.shim, Shim.removeDir, FsResult.mapErr_fst]
    exact h.rmdir hop.1 hop.2
  | removeDirAll order path => exact Shim.removeDirAll_treeInv order h hop.1 hop.2
  | symlink original link now =>
    simp only [FsState.shim, Shim.symlink, FsResult.mapErr_fst]
    exact h.createSymlink hop original now
  | hardLink original link now =>
    simp only [FsState.shim, Shim.hardLink, FsResult.mapErr_fst]
    exact h.createHardLink hop original now
  | syncAll file => exact Shim.syncAll_treeInv h hop
  | syncDir path now =>
    simp only [FsState.shim, Shim.syncDir, FsResult.mapErr_fst]
    exact h.syncDir now hop
  | crash surviving => exact h.crash surviving

theorem treeInv_new (config : FsConfig) : (FsState.new config).TreeInv := by
  have hkind : ∀ p, (FsState.new config).persistedKind p ≠ none → p = Path.root := by
    intro p hp
    by_contra hne
    exact hp (by simp [persistedKind, FsState.new, hne])
  have hroot : (FsState.new config).persistedKind Path.root = some .directory := by
    simp [persistedKind, FsState.new]
  have heq : ∀ p, (FsState.new config).entryKind p = (FsState.new config).persistedKind p :=
    fun p => entryKind_of_untouched (by simp [FsState.new])
  refine ⟨coherent_new config, ⟨(heq _).trans hroot, fun p hp hex => ?_⟩,
    ⟨⟨by simp [FsState.new], hroot⟩, fun p hp hs => ?_⟩, fun _ _ hm => absurd hm List.not_mem_nil⟩
  · rw [heq] at hex
    exact absurd (hkind p hex) hp
  · exact absurd (by simpa [FsState.new] using hs) hp

/-- **What exists is a tree** after every run of shim calls and crashes that are `TreeSafe`. -/
theorem tree_well_formed (config : FsConfig) (ops : List ShimOp)
    (hops : Turmoil.Along FsState.shim TreeSafe (FsState.new config) ops) :
    ((FsState.new config).shimRun ops).entryKind Path.root = some .directory
      ∧ ∀ p, p ≠ Path.root → ((FsState.new config).shimRun ops).entryKind p ≠ none →
        ∃ q, p.parent = some q
          ∧ ((FsState.new config).shimRun ops).entryKind q = some .directory :=
  (Turmoil.Along.invariant (fun _ _ h hop => h.shim hop) (treeInv_new config) hops).tree

/-- A directory with a file in it, of which only the directory is made durable. -/
def nestedRun : List ShimOp :=
  [.createDir (Path.abs ["a"]) 0,
    .openFile { OpenOptions.default with write := true, create := true } (Path.abs ["a", "f"]) 0,
    .syncDir Path.root 0, .removeFile (Path.abs ["a", "f"]), .crash fun _ => 0]

theorem tree_well_formed_nestedRun :
    Turmoil.Along FsState.shim TreeSafe (FsState.new FsConfig.default) nestedRun
    ∧ ((FsState.new FsConfig.default).shimRun nestedRun).entryKind Path.root
      = some .directory := by
  have hops : Turmoil.Along FsState.shim TreeSafe (FsState.new FsConfig.default) nestedRun := by
    refine ⟨rfl, ?_, fun _ => ⟨by decide, Or.inl (by decide), ?_⟩, trivial, trivial, trivial⟩
    · intro r hr _ _
      have hr' : r = Path.abs ["a", "f"] := by
        have : Shim.openTarget ((FsState.new FsConfig.default).shim
            (.createDir (Path.abs ["a"]) 0)) (Path.abs ["a", "f"])
            = .ok (Path.abs ["a", "f"]) := by decide
        rw [this] at hr
        cases hr
        rfl
      subst hr'
      decide
    · intro op hop
      have hflush : (((FsState.new FsConfig.default).shim (.createDir (Path.abs ["a"]) 0)).shim
          (.openFile { OpenOptions.default with write := true, create := true }
            (Path.abs ["a", "f"]) 0)).dirFlush Path.root
          = [.createDir (Path.abs ["a"]) 0 0o755] := by decide
      rw [hflush] at hop
      cases List.mem_singleton.mp hop
      trivial
  exact ⟨hops, (tree_well_formed FsConfig.default nestedRun hops).1⟩

/-- A directory is renamed with a file in it: the file stays where nothing is above it. -/
theorem rename_leaves_orphan :
    ((FsState.new FsConfig.default).shimRun
        [.createDir (Path.abs ["a"]) 0,
          .openFile { OpenOptions.default with write := true, create := true }
            (Path.abs ["a", "f"]) 0,
          .rename (Path.abs ["a"]) (Path.abs ["b"])]).entryKind (Path.abs ["a", "f"])
      = some .file
    ∧ (Path.abs ["a", "f"]).parent = some (Path.abs ["a"])
    ∧ ((FsState.new FsConfig.default).shimRun
        [.createDir (Path.abs ["a"]) 0,
          .openFile { OpenOptions.default with write := true, create := true }
            (Path.abs ["a", "f"]) 0,
          .rename (Path.abs ["a"]) (Path.abs ["b"])]).entryKind (Path.abs ["a"])
      = none := by
  decide

end FsState

end Turmoil.Fs
