/-
# The directory tree

There is no tree in the state: existence is decided path by path.  Whether what exists forms a
tree (the root is a directory, and so is the parent of everything else) depends on every call
keeping parents and children in step, in the view of the running program and, for the sake of
the next crash, among the durable entries.

`TreeInv` has both halves.  The running half is `Tree`; the durable half is `DurTree`, which asks
for the parent of every durable entry to be a durable directory.  A sync moves operations from
one half to the other, and a crash replaces the first by the second.

Four things in the code break the tree, and `TreeSafe` excludes them call by call: a rename of a
directory does not move what is below it; the emptiness check of `rmdir`, `rename` and
`remove_dir_all` overlooks pending hard links and, for the first two, names that were moved in;
`open` creates a file over a directory; and `sync_dir` makes entries durable in directories that
are not durable themselves, or keeps entries of directories whose removal it makes durable.
-/
import Turmoil.Fs.Readers
import Turmoil.Fs.SyncView
import Turmoil.Fs.Shim

namespace Turmoil.Fs

namespace FsState

/-! ## 1. Trees -/

/-- The root is a directory, and so is the parent of everything else that exists. -/
def Tree (s : FsState) : Prop :=
  s.entryKind Path.root = some .directory
    ∧ ∀ p, p ≠ Path.root → s.entryKind p ≠ none →
      ∃ q, p.parent = some q ∧ s.entryKind q = some .directory

/-- Nothing exists directly below `d`. -/
def NoChild (s : FsState) (d : Path) : Prop := ∀ q, q.parent = some d → s.entryKind q = none

/-- A directory that a crash leaves in place. -/
def DirDurable (s : FsState) (d : Path) : Prop :=
  s.syncedEntries.contains d = true ∧ s.persistedKind d = some .directory

instance (s : FsState) (d : Path) : Decidable (s.DirDurable d) :=
  inferInstanceAs (Decidable (_ ∧ _))

/-- The durable entries form a tree of durable directories. -/
def DurTree (s : FsState) : Prop :=
  s.DirDurable Path.root
    ∧ ∀ p, p ≠ Path.root → s.syncedEntries.contains p = true →
      ∃ q, p.parent = some q ∧ s.DirDurable q

/-- No pending rename moves a path into itself or onto one of its ancestors. -/
def NoNesting (s : FsState) : Prop :=
  ∀ src dst, PendingOp.rename src dst ∈ s.pending →
    src ∉ dst.ancestors ∧ dst ∉ src.ancestors

structure TreeInv (s : FsState) : Prop where
  coherent : s.Coherent
  tree : s.Tree
  durable : s.DurTree
  nesting : s.NoNesting

/-- What has something below it has a child. -/
theorem Tree.child {s : FsState} (h : s.Tree) : ∀ {p a : Path}, s.entryKind p ≠ none →
    a ∈ p.ancestors → ∃ c, c.parent = some a ∧ s.entryKind c ≠ none := by
  intro p
  induction hn : p.comps.length using Nat.strongRecOn generalizing p with
  | ind n ih =>
    intro a hp ha
    have hne : p ≠ Path.root := by
      rintro rfl
      cases ha
    obtain ⟨q, hq, hdir⟩ := h.2 p hne hp
    rcases (Path.mem_ancestors_iff hq).mp ha with rfl | ha
    · exact ⟨p, hq, hp⟩
    · have hlen := Path.parent_length hq
      exact ih q.comps.length (by omega) rfl (by rw [hdir]; simp) ha

theorem Tree.hasRoot {s : FsState} (h : s.Tree) : ∀ {p : Path}, s.entryKind p ≠ none →
    p.hasRoot = true := by
  intro p
  induction hn : p.comps.length using Nat.strongRecOn generalizing p with
  | ind n ih =>
    intro hp
    by_cases hne : p = Path.root
    · rw [hne]
      rfl
    · obtain ⟨q, hq, hdir⟩ := h.2 p hne hp
      have hlen := Path.parent_length hq
      rw [← Path.parent_hasRoot hq]
      exact ih q.comps.length (by omega) rfl (by rw [hdir]; simp)

/-- For an absolute path other than the root, the parent test finds a directory. -/
theorem parent_of_parentExists {s : FsState} {p : Path} (hr : p.hasRoot = true)
    (hne : p ≠ Path.root) (h : s.parentExists p = true) :
    ∃ q, p.parent = some q ∧ s.entryKind q = some .directory := by
  cases hq : p.parent with
  | none => exact absurd (Path.eq_root_of_parent_eq_none hr hq) hne
  | some q =>
    refine ⟨q, rfl, ?_⟩
    have hroot := (Path.parent_hasRoot hq).trans hr
    simpa [parentExists, hq, Path.isEmpty, hroot, dirExists_iff] using h

/-! ## 2. Calls that queue an operation -/

/-- Queueing keeps the durable half; the rest is what the operation does to the kinds. -/
theorem TreeInv.push {s : FsState} (h : s.TreeInv) {op : PendingOp}
    (hok : kindOk s.entryKind op) (htree : (s.push op).Tree)
    (hren : ∀ src dst, op = .rename src dst → src ∉ dst.ancestors ∧ dst ∉ src.ancestors) :
    (s.push op).TreeInv where
  coherent := h.coherent.push hok
  tree := htree
  durable := h.durable
  nesting := by
    intro src dst hm
    rcases List.mem_append.mp hm with hm | hm
    · exact h.nesting src dst hm
    · exact hren src dst (List.mem_singleton.mp hm).symm

/-- Something new where nothing was, in a directory. -/
theorem Tree.create {s : FsState} (h : s.Tree) {op : PendingOp} {p : Path} {k : EntryKind}
    (hstep : kindStep s.entryKind op = Function.update s.entryKind p (some k))
    (hr : p.hasRoot = true) (hnone : s.entryKind p = none) (hpar : s.parentExists p = true) :
    (s.push op).Tree := by
  have hroot : p ≠ Path.root := by
    rintro rfl
    rw [h.1] at hnone
    cases hnone
  have hkind : ∀ q, (s.push op).entryKind q = Function.update s.entryKind p (some k) q := by
    intro q
    rw [entryKind_push, hstep]
  -- directories stay directories
  have hdir : ∀ q, s.entryKind q = some .directory → (s.push op).entryKind q = some .directory := by
    intro q hq
    have hqp : q ≠ p := fun e => by
      rw [e, hnone] at hq
      cases hq
    rw [hkind, Function.update_of_ne hqp]
    exact hq
  refine ⟨hdir _ h.1, fun q hq hex => ?_⟩
  by_cases hqp : q = p
  · subst hqp
    obtain ⟨r, hr1, hr2⟩ := parent_of_parentExists hr hq hpar
    exact ⟨r, hr1, hdir r hr2⟩
  · rw [hkind, Function.update_of_ne hqp] at hex
    obtain ⟨r, hr1, hr2⟩ := h.2 q hq hex
    exact ⟨r, hr1, hdir r hr2⟩

/-- Removing something without children. -/
theorem Tree.remove {s : FsState} (h : s.Tree) {op : PendingOp} {p : Path}
    (hstep : kindStep s.entryKind op = Function.update s.entryKind p none)
    (hroot : p ≠ Path.root) (hchild : s.NoChild p) : (s.push op).Tree := by
  have hkind : ∀ q, (s.push op).entryKind q = Function.update s.entryKind p none q := by
    intro q
    rw [entryKind_push, hstep]
  refine ⟨?_, fun q hq hex => ?_⟩
  · rw [hkind, Function.update_of_ne (Ne.symm hroot)]
    exact h.1
  · have hqp : q ≠ p := fun e => by
      rw [hkind, e, Function.update_self] at hex
      exact hex rfl
    rw [hkind, Function.update_of_ne hqp] at hex
    obtain ⟨r, hr1, hr2⟩ := h.2 q hq hex
    have hrp : r ≠ p := fun e => hex (hchild q (e ▸ hr1))
    exact ⟨r, hr1, by rw [hkind, Function.update_of_ne hrp]; exact hr2⟩

/-- A leaf has no children. -/
theorem Tree.noChild_of_leaf {s : FsState} (h : s.Tree) {p : Path}
    (hp : s.entryKind p ≠ some .directory) : s.NoChild p := by
  intro q hq
  by_contra hex
  have hne : q ≠ Path.root := by
    rintro rfl
    cases hq
  obtain ⟨r, hr1, hr2⟩ := h.2 q hne hex
  rw [hq] at hr1
  cases hr1
  exact hp hr2

/-- The condition on `rename`: an entry of the same kind is replaced, or none; a directory that
is moved is empty and does not end up in itself; a directory that is replaced because it looks
empty is empty. -/
structure RenameSafe (s : FsState) (src dst : Path) : Prop where
  ne : src ≠ dst
  absolute : dst.hasRoot = true
  sameKind : s.entryKind dst = none ∨ s.entryKind dst = s.entryKind src
  emptySrc : s.entryKind src = some .directory → s.NoChild src ∧ dst.parent ≠ some src
  emptyDst : s.entryKind dst = some .directory → s.dirHasChildren dst = false → s.NoChild dst

section Calls

variable {s : FsState} (h : s.TreeInv)

include h

theorem TreeInv.mkdir {p : Path} (hr : p.hasRoot = true) (time : Duration) (mode : Nat) :
    (s.mkdirWithMode p time mode).1.TreeInv := by
  rcases s.mkdir_cases p time mode with ⟨e, he⟩ | ⟨he, hpar, hnone⟩ <;> rw [he]
  · exact h
  · refine h.push hnone (h.tree.create (k := .directory) ?_ hr hnone hpar) (fun _ _ e => by cases e)
    funext q
    simp [kindStep, Function.update_apply, eq_comm]

theorem TreeInv.createSymlink {p : Path} (hr : p.hasRoot = true) (target : Path)
    (time : Duration) : (s.createSymlink p target time).1.TreeInv := by
  rcases s.createSymlink_cases p target time with ⟨e, he⟩ | ⟨he, hpar, hnone⟩ <;> rw [he]
  · exact h
  · refine h.push hnone (h.tree.create (k := .symlink) ?_ hr hnone hpar) (fun _ _ e => by cases e)
    funext q
    simp [kindStep, Function.update_apply, eq_comm]

theorem TreeInv.createHardLink {p : Path} (hr : p.hasRoot = true) (target : Path)
    (time : Duration) : (s.createHardLink p target time).1.TreeInv := by
  rcases s.createHardLink_cases p target time with ⟨e, he⟩ | ⟨he, hpar, hnone, ht⟩ <;> rw [he]
  · exact h
  · refine h.push ⟨hnone, ht⟩ (h.tree.create (k := .file) ?_ hr hnone hpar)
      (fun _ _ e => by cases e)
    funext q
    simp [kindStep, Function.update_apply, eq_comm]

theorem TreeInv.createFile {p : Path} (hr : p.hasRoot = true) (hnone : s.entryKind p = none)
    (hpar : s.parentExists p = true) (time : Duration) (mode : Nat) :
    (s.createFileWithMode p time mode).TreeInv := by
  refine h.push (Or.inl hnone) (h.tree.create (k := .file) ?_ hr hnone hpar)
    (fun _ _ e => by cases e)
  funext q
  simp [kindStep, Function.update_apply, eq_comm]

/-- Changing only caches and handles. -/
theorem TreeInv.congr {t : FsState} (h1 : t.persistedFiles = s.persistedFiles)
    (h2 : t.persistedDirs = s.persistedDirs) (h3 : t.persistedSymlinks = s.persistedSymlinks)
    (h4 : t.syncedEntries = s.syncedEntries) (h5 : t.pending = s.pending) : t.TreeInv := by
  have hb : s.bits = t.bits := bits_congr h1.symm (fun q => by rw [h2]) h3.symm
  have hpk : t.persistedKind = s.persistedKind := (kind_congr hb).symm
  have hk : t.entryKind = s.entryKind := by
    rw [entryKind_eq_replay, entryKind_eq_replay, hpk, h5]
  refine ⟨⟨mapsDisjoint_congr hb h.coherent.disjoint, by rw [hpk, h5]; exact h.coherent.valid⟩,
    ?_, ?_, ?_⟩
  · rw [Tree, hk]
    exact h.tree
  · simp only [DurTree, DirDurable, hpk, h4]
    exact h.durable
  · rw [NoNesting, h5]
    exact h.nesting

/-- Data and permissions queue operations that name nothing. -/
theorem TreeInv.pushData {op : PendingOp} (hop : op.names = []) (hok : kindOk s.entryKind op) :
    (s.push op).TreeInv := by
  have hk : (s.push op).entryKind = s.entryKind := by
    rw [entryKind_push]
    funext q
    exact kindOps.frame _ op q (by simp [hop])
  refine h.push hok (by rw [Tree, hk]; exact h.tree) ?_
  rintro src dst rfl
  cases hop

theorem TreeInv.unlink (p : Path) : (s.unlink p).1.TreeInv := by
  rcases s.unlink_cases p with ⟨e, he⟩ | ⟨he, hp⟩ <;> rw [he]
  · exact h
  · have hleaf : s.entryKind p ≠ some .directory := by
      rcases hp with hp | hp <;> rw [hp] <;> simp
    have hc : (s.invalidateCache p).TreeInv := h.congr rfl rfl rfl rfl rfl
    refine hc.push hp ?_ (fun _ _ e => by cases e)
    refine Tree.remove (p := p) hc.tree ?_ ?_ (hc.tree.noChild_of_leaf hleaf)
    · funext q
      simp [kindStep, Function.update_apply, eq_comm]
    · rintro rfl
      exact hleaf h.tree.1

theorem TreeInv.rmdir {p : Path} (hroot : p ≠ Path.root)
    (hempty : s.entryKind p = some .directory → s.dirHasChildren p = false → s.NoChild p) :
    (s.rmdir p).1.TreeInv := by
  rcases s.rmdir_cases p with ⟨e, he⟩ | ⟨he, hp, hno⟩ <;> rw [he]
  · exact h
  · refine h.push hp ?_ (fun _ _ e => by cases e)
    refine h.tree.remove (p := p) ?_ hroot (hempty hp hno)
    funext q
    simp [kindStep, Function.update_apply, eq_comm]

theorem TreeInv.rename {src dst : Path}
    (hsafe : s.parentExists dst = true → s.entryKind src ≠ none → s.RenameSafe src dst) :
    (s.rename src dst).1.TreeInv := by
  rcases s.rename_cases src dst with ⟨e, he⟩ | ⟨he, hpar, hsrc, -, -, hlooks⟩ <;> rw [he]
  · exact h
  replace hsafe := hsafe hpar hsrc
  have hne := hsafe.ne
  -- neither end has anything below it
  have hnosrc : s.NoChild src := by
    by_cases hd : s.entryKind src = some .directory
    · exact (hsafe.emptySrc hd).1
    · exact h.tree.noChild_of_leaf hd
  have hnodst : s.NoChild dst := by
    by_cases hd : s.entryKind dst = some .directory
    · exact hsafe.emptyDst hd (hlooks hd)
    · exact h.tree.noChild_of_leaf hd
  have hsrcroot : src ≠ Path.root := by
    rintro rfl
    -- a childless root leaves no other directory for the target to be in
    obtain ⟨q, hq, hdir⟩ := parent_of_parentExists hsafe.absolute (Ne.symm hne) hpar
    by_cases hqr : q = Path.root
    · exact (hsafe.emptySrc h.tree.1).2 (hqr ▸ hq)
    · have hroot := h.tree.hasRoot (p := q) (by rw [hdir]; simp)
      obtain ⟨c, hc1, hc2⟩ := h.tree.child (p := q) (by rw [hdir]; simp)
        (Path.root_mem_ancestors hroot hqr)
      exact hc2 (hnosrc c hc1)
  have hdstroot : dst ≠ Path.root := by
    rintro rfl
    obtain ⟨c, hc1, hc2⟩ := h.tree.child hsrc
      (Path.root_mem_ancestors (h.tree.hasRoot hsrc) hsrcroot)
    exact hc2 (hnodst c hc1)
  obtain ⟨q, hq, hqdir⟩ := parent_of_parentExists hsafe.absolute hdstroot hpar
  have hqsrc : q ≠ src := by
    rintro rfl
    exact (hsafe.emptySrc hqdir).2 hq
  have hqdst : q ≠ dst := fun e => Path.parent_ne_self (e ▸ hq)
  have hkind : ∀ r, (s.push (.rename src dst)).entryKind r
      = if src = r then none else if dst = r then s.entryKind src else s.entryKind r := by
    intro r
    rw [entryKind_push]
    rfl
  refine h.push ⟨hne, hsrc, hsafe.sameKind⟩ ⟨?_, fun r hr hex => ?_⟩ ?_
  · rw [hkind, if_neg hsrcroot, if_neg hdstroot]
    exact h.tree.1
  · have hrs : src ≠ r := fun e => by
      rw [hkind, if_pos e] at hex
      exact hex rfl
    by_cases hrd : dst = r
    · subst hrd
      exact ⟨q, hq, by rw [hkind, if_neg (Ne.symm hqsrc), if_neg (Ne.symm hqdst)]; exact hqdir⟩
    · rw [hkind, if_neg hrs, if_neg hrd] at hex
      obtain ⟨u, hu, hudir⟩ := h.tree.2 r hr hex
      have hus : src ≠ u := fun e => hex (hnosrc r (e ▸ hu))
      have hud : dst ≠ u := fun e => hex (hnodst r (e ▸ hu))
      exact ⟨u, hu, by rw [hkind, if_neg hus, if_neg hud]; exact hudir⟩
  · rintro a b ⟨⟩
    refine ⟨fun ha => ?_, fun hb => ?_⟩
    · rcases (Path.mem_ancestors_iff hq).mp ha with e | ha
      · exact hqsrc e.symm
      · obtain ⟨c, hc1, hc2⟩ := h.tree.child (p := q) (by rw [hqdir]; simp) ha
        exact hc2 (hnosrc c hc1)
    · obtain ⟨c, hc1, hc2⟩ := h.tree.child hsrc hb
      exact hc2 (hnodst c hc1)

/-! ## 3. Syncs and crashes -/

theorem TreeInv.flushFile {p : Path} (hfit : s.fileExists p = true → s.InodeFits p) :
    (s.flushFile p).1.TreeInv := by
  cases hex : s.fileExists p with
  | false =>
    rw [flushFile_err hex]
    exact h
  | true =>
    obtain ⟨hkind, hcoh⟩ := flushFile_kind h.coherent hfit
    obtain ⟨files, f, heq, hf, -, hother⟩ := flushFile_spec hex
    have hE : (s.flushFile p).1.syncedEntries = s.syncedEntries := by rw [heq]
    -- a directory is not the path of the inode
    have hdur : ∀ d, s.DirDurable d → (s.flushFile p).1.DirDurable d := by
      rintro d ⟨h1, h2⟩
      have hdp : d ≠ p := by
        rintro rfl
        rcases hfit hex with h' | h'
        · rw [h'] at h2
          cases h2
        · rw [h'.absent] at h2
          cases h2
      refine ⟨by rw [hE]; exact h1, ?_⟩
      rw [← h2, heq]
      exact kind_congr_at (by simp [bits, IndexMap.contains, hother d hdp])
    refine ⟨hcoh, by rw [Tree, hkind]; exact h.tree, ⟨hdur _ h.durable.1, fun q hq hs => ?_⟩, ?_⟩
    · rw [hE] at hs
      obtain ⟨r, hr, hd⟩ := h.durable.2 q hq hs
      exact ⟨r, hr, hdur r hd⟩
    · intro src dst hm
      rw [heq] at hm
      exact h.nesting src dst (List.mem_filter.mp hm).1

theorem TreeInv.crash (surviving : Nat → Nat) : (s.crash surviving).TreeInv := by
  have hpend : (s.crash surviving).pending = [] := by simp [FsState.crash]
  have hfold : ∀ (t : FsState) (q : Path), t.bits = s.bits → t.syncedEntries = s.syncedEntries →
      ({ t with
        pending := []
        persistedFiles := t.persistedFiles.retainKeys t.syncedEntries.contains
        persistedDirs := t.persistedDirs.retainKeys t.syncedEntries.contains
        persistedSymlinks := t.persistedSymlinks.retainKeys t.syncedEntries.contains }
          : FsState).persistedKind q
        = if s.syncedEntries.contains q then s.persistedKind q else none := by
    intro t q hb hE
    rw [← kind_congr hb, ← hE]
    simp only [persistedKind, IndexMap.contains_retainKeys]
    cases t.syncedEntries.contains q <;> simp
  have hpk : ∀ q, (s.crash surviving).persistedKind q
      = if s.syncedEntries.contains q then s.persistedKind q else none := by
    intro q
    unfold FsState.crash
    cases hb : s.blockSize with
    | none => exact hfold s q rfl rfl
    | some b =>
      refine hfold _ q (s.applyTornWrites_bits b surviving) ?_
      obtain ⟨files, dirs, links, hf⟩ := foldl_applyOp_eq
        ((s.pending.zipIdx).filterMap fun x => s.tornWrite b (surviving x.2) x.1) s
      simp only [applyTornWrites, hf]
  have hE : (s.crash surviving).syncedEntries = s.syncedEntries := by
    unfold FsState.crash
    cases hb : s.blockSize with
    | none => rfl
    | some b =>
      obtain ⟨files, dirs, links, hf⟩ := foldl_applyOp_eq
        ((s.pending.zipIdx).filterMap fun x => s.tornWrite b (surviving x.2) x.1) s
      simp only [applyTornWrites, hf]
  have hkind : ∀ q, (s.crash surviving).entryKind q
      = if s.syncedEntries.contains q then s.persistedKind q else none := by
    intro q
    rw [entryKind_of_untouched (by simp [hpend]), hpk]
  have hdur : ∀ d, s.DirDurable d → (s.crash surviving).DirDurable d := by
    rintro d ⟨h1, h2⟩
    exact ⟨by rw [hE]; exact h1, by rw [hpk, if_pos h1]; exact h2⟩
  have hdir : ∀ d, s.DirDurable d → (s.crash surviving).entryKind d = some .directory := by
    rintro d ⟨h1, h2⟩
    rw [hkind, if_pos h1]
    exact h2
  refine ⟨crash_coherent h.coherent.disjoint surviving, ⟨hdir _ h.durable.1, fun q hq hex => ?_⟩,
    ⟨hdur _ h.durable.1, fun q hq hs => ?_⟩, ?_⟩
  · rw [hkind] at hex
    split at hex
    · rename_i hs
      obtain ⟨r, hr, hd⟩ := h.durable.2 q hq hs
      exact ⟨r, hr, hdir r hd⟩
    · exact absurd rfl hex
  · rw [hE] at hs
    obtain ⟨r, hr, hd⟩ := h.durable.2 q hq hs
    exact ⟨r, hr, hdur r hd⟩
  · intro src dst hm
    rw [hpend] at hm
    cases hm

end Calls

/-- The condition on `sync_dir d`: no flushed operation overtakes one on the same name; `d` is
durable, or about to become so in a durable parent; and a directory whose removal or move is
flushed has no durable entry left in it. -/
structure SyncDirSafe (s : FsState) (d : Path) : Prop where
  apart : kindOps.Apart (affectsDir d) s.pending
  durable : s.DirDurable d ∨ ((∃ time mode, PendingOp.createDir d time mode ∈ s.pending)
    ∧ ∃ q, d.parent = some q ∧ s.DirDurable q)
  vacated : ∀ op ∈ s.dirFlush d, match op with
    | .removeDir x => ∀ p, s.syncedEntries.contains p = true → p.parent ≠ some x
    | .rename x _ => ∀ p, s.syncedEntries.contains p = true → p.parent ≠ some x
    | _ => True

/-- Flushing a log that neither removes nor moves a durable directory leaves it durable. -/
theorem dir_stays {d q : Path} {log : List PendingOp}
    (hrm : ∀ x, PendingOp.removeDir x ∈ log → x ≠ q)
    (hmv : ∀ x y, PendingOp.rename x y ∈ log → x ≠ q) :
    ∀ {m : Path → Option EntryKind} {E : IndexMap Path Unit}, kindOps.Valid m log →
      m q = some .directory → E.contains q = true →
      kindOps.replay m log q = some .directory
        ∧ (log.foldl (syncEntry d) E).contains q = true := by
  induction log with
  | nil => exact fun _ hm he => ⟨hm, he⟩
  | cons op log ih =>
    intro m E hv hm he
    have hok : kindOk m op := hv.1
    have ih := @ih (fun x hx => hrm x (List.mem_cons_of_mem _ hx))
      (fun x y hx => hmv x y (List.mem_cons_of_mem _ hx))
    suffices hstep : kindStep m op q = some .directory
        ∧ (syncEntry d E op).contains q = true from ih hv.2 hstep.1 hstep.2
    have hins : ∀ p, (E.insert p ()).contains q = true := fun p => by simp [he]
    have hrem : ∀ p, p ≠ q → (E.swapRemove p).contains q = true :=
      fun p hp => by simp [he, Ne.symm hp]
    cases op with
    | createFile p time mode =>
      have hp : p ≠ q := by
        rintro rfl
        rcases hok with h | h <;> rw [hm] at h <;> cases h
      refine ⟨by simpa [kindStep, hp] using hm, ?_⟩
      simp only [syncEntry]
      split
      · exact hins p
      · exact he
    | createDir p time mode =>
      have hp : p ≠ q := by
        rintro rfl
        rw [show m p = none from hok] at hm
        cases hm
      refine ⟨by simpa [kindStep, hp] using hm, ?_⟩
      simp only [syncEntry]
      split
      · exact hins p
      · exact he
    | createSymlink p target time =>
      have hp : p ≠ q := by
        rintro rfl
        rw [show m p = none from hok] at hm
        cases hm
      refine ⟨by simpa [kindStep, hp] using hm, ?_⟩
      simp only [syncEntry]
      split
      · exact hins p
      · exact he
    | createHardLink p target time =>
      have hp : p ≠ q := by
        rintro rfl
        rw [show m p = none from hok.1] at hm
        cases hm
      refine ⟨by simpa [kindStep, hp] using hm, ?_⟩
      simp only [syncEntry]
      split
      · exact hins p
      · exact he
    | removeFile p =>
      have hp : p ≠ q := by
        rintro rfl
        rcases hok with h | h <;> rw [hm] at h <;> cases h
      refine ⟨by simpa [kindStep, hp] using hm, ?_⟩
      simp only [syncEntry]
      split
      · exact hrem p hp
      · exact he
    | removeDir p =>
      have hp := hrm p List.mem_cons_self
      refine ⟨by simpa [kindStep, hp] using hm, ?_⟩
      simp only [syncEntry]
      split
      · exact hrem p hp
      · exact he
    | rename x y =>
      have hx := hmv x y List.mem_cons_self
      refine ⟨?_, ?_⟩
      · -- what is moved onto a directory is a directory
        simp only [kindStep, if_neg hx]
        split
        · rename_i hy
          subst hy
          rcases hok.2.2 with h | h
          · rw [hm] at h
            cases h
          · rw [← h]
            exact hm
        · exact hm
      · have h1 : (if x.parent = some d then E.swapRemove x else E).contains q = true := by
          split
          · exact hrem x hx
          · exact he
        simp only [syncEntry]
        split
        · simp only [IndexMap.contains_insert, h1, Bool.or_true]
        · exact h1
    | _ => exact ⟨hm, he⟩

/-- The entries a `sync_dir d` makes durable are in `d`, or `d` itself. -/
theorem syncEntry_new {d p : Path} {log : List PendingOp} : ∀ {entries : IndexMap Path Unit},
    (log.foldl (syncEntry d) entries).contains p = true →
      entries.contains p = true ∨ p.parent = some d
        ∨ (p = d ∧ ∃ time mode, PendingOp.createDir d time mode ∈ log) := by
  induction log with
  | nil => exact fun h => Or.inl h
  | cons op log ih =>
    intro entries h
    rcases ih h with h1 | h1 | ⟨h1, time, mode, h2⟩
    · -- one insertion at most
      have hins : ∀ q, (entries.insert q ()).contains p = true →
          p = q ∨ entries.contains p = true := fun q hq => by simpa using hq
      have hrem : ∀ q, (entries.swapRemove q).contains p = true → entries.contains p = true :=
        fun q hq => by
          simp only [IndexMap.contains_swapRemove, Bool.and_eq_true] at hq
          exact hq.2
      cases op with
      | createDir q time mode =>
        simp only [syncEntry] at h1
        split at h1
        · rename_i hq
          rcases hins q h1 with rfl | h1
          · rcases hq with rfl | hq
            · exact Or.inr (Or.inr ⟨rfl, time, mode, List.mem_cons_self⟩)
            · exact Or.inr (Or.inl hq)
          · exact Or.inl h1
        · exact Or.inl h1
      | createFile q time mode =>
        simp only [syncEntry] at h1
        split at h1
        · rename_i hq
          rcases hins q h1 with rfl | h1
          · exact Or.inr (Or.inl hq)
          · exact Or.inl h1
        · exact Or.inl h1
      | createSymlink q target time =>
        simp only [syncEntry] at h1
        split at h1
        · rename_i hq
          rcases hins q h1 with rfl | h1
          · exact Or.inr (Or.inl hq)
          · exact Or.inl h1
        · exact Or.inl h1
      | createHardLink q target time =>
        simp only [syncEntry] at h1
        split at h1
        · rename_i hq
          rcases hins q h1 with rfl | h1
          · exact Or.inr (Or.inl hq)
          · exact Or.inl h1
        · exact Or.inl h1
      | removeFile q =>
        simp only [syncEntry] at h1
        split at h1
        · exact Or.inl (hrem q h1)
        · exact Or.inl h1
      | removeDir q =>
        simp only [syncEntry] at h1
        split at h1
        · exact Or.inl (hrem q h1)
        · exact Or.inl h1
      | rename x y =>
        have h2 : (if x.parent = some d then entries.swapRemove x else entries).contains p = true →
            entries.contains p = true := by
          split
          · exact hrem x
          · exact id
        simp only [syncEntry] at h1
        split at h1
        · rename_i hy
          simp only [IndexMap.contains_insert, Bool.or_eq_true, decide_eq_true_eq] at h1
          rcases h1 with rfl | h1
          · exact Or.inr (Or.inl hy)
          · exact Or.inl (h2 h1)
        · exact Or.inl (h2 h1)
      | _ => exact Or.inl h1
    · exact Or.inr (Or.inl h1)
    · exact Or.inr (Or.inr ⟨h1, time, mode, List.mem_cons_of_mem _ h2⟩)

/-- **`sync_dir` keeps the tree**, in both halves, where its condition holds. -/
theorem TreeInv.syncDir {s : FsState} {d : Path} (h : s.TreeInv) (time : Duration)
    (hsafe : s.dirExists d = true → s.SyncDirSafe d) : (s.syncDir d time).1.TreeInv := by
  cases hex : s.dirExists d with
  | false =>
    rw [syncDir_err hex]
    exact h
  | true =>
    have hs := hsafe hex
    obtain ⟨hkind, hcoh⟩ := syncDir_kind h.coherent hs.apart time
    obtain ⟨hpk, -⟩ := syncDir_persistedKind h.coherent hex hs.apart time
    obtain ⟨dirs, heq, -⟩ := syncDir_spec hex time
    have hE : (s.syncDir d time).1.syncedEntries
        = (s.dirFlush d).foldl (syncEntry d) s.syncedEntries := by rw [heq]
    have hpend : (s.syncDir d time).1.pending = s.dirKeep d := by rw [heq]
    obtain ⟨hv, -⟩ := h.coherent.valid.partition _ (affectsDir d) hs.apart
    replace hv : kindOps.Valid s.persistedKind (s.dirFlush d) := hv
    have hdir := dirExists_iff.mp hex
    have hdroot : d.hasRoot = true := h.tree.hasRoot (by rw [hdir]; simp)
    -- a durable directory that no flushed operation removes or moves stays durable
    have hstay : ∀ q, s.DirDurable q → (∀ x, PendingOp.removeDir x ∈ s.dirFlush d → x ≠ q) →
        (∀ x y, PendingOp.rename x y ∈ s.dirFlush d → x ≠ q) →
        (s.syncDir d time).1.DirDurable q := by
      rintro q ⟨h1, h2⟩ hrm hmv
      obtain ⟨h3, h4⟩ := dir_stays (d := d) hrm hmv hv h2 h1
      exact ⟨by rw [hE]; exact h4, by rw [hpk]; exact h3⟩
    -- flushed removals are of names in `d`, and flushed moves do not nest
    have hrm : ∀ x, PendingOp.removeDir x ∈ s.dirFlush d → x.parent = some d := by
      intro x hx
      simpa [affectsDir] using (mem_dirFlush.mp hx).2
    have hmv : ∀ x y, PendingOp.rename x y ∈ s.dirFlush d →
        x.parent = some d ∨ (y.parent = some d ∧ x ∉ d.ancestors ∧ x ≠ d) := by
      intro x y hx
      obtain ⟨hm, ha⟩ := mem_dirFlush.mp hx
      have hnest := (h.nesting x y hm).1
      rcases (by simpa [affectsDir] using ha : x.parent = some d ∨ y.parent = some d) with hp | hp
      · exact Or.inl hp
      · rw [Path.mem_ancestors_iff hp, not_or] at hnest
        exact Or.inr ⟨hp, hnest.2, hnest.1⟩
    -- nothing flushed removes or moves `d` or what is above it
    have habove : ∀ q, q = d ∨ q ∈ d.ancestors →
        (∀ x, PendingOp.removeDir x ∈ s.dirFlush d → x ≠ q)
          ∧ ∀ x y, PendingOp.rename x y ∈ s.dirFlush d → x ≠ q := by
      intro q hq
      have hlen : q.comps.length ≤ d.comps.length := by
        rcases hq with rfl | hq
        · exact Nat.le_refl _
        · exact Nat.le_of_lt (Path.length_lt_of_mem_ancestors hq)
      refine ⟨fun x hx e => ?_, fun x y hx e => ?_⟩
      · have := Path.parent_length (hrm x hx)
        rw [e] at this
        omega
      · rcases hmv x y hx with hp | ⟨-, hp1, hp2⟩
        · have := Path.parent_length hp
          rw [e] at this
          omega
        · rcases hq with hq | hq
          · exact hp2 (e.trans hq)
          · exact hp1 (e ▸ hq)
    have hroot : (s.syncDir d time).1.DirDurable Path.root := by
      refine hstay _ h.durable.1 (habove _ ?_).1 (habove _ ?_).2 <;>
      · by_cases hd : Path.root = d
        · exact Or.inl hd
        · exact Or.inr (Path.root_mem_ancestors hdroot (Ne.symm hd))
    -- `d` itself is durable afterwards
    have hd' : (s.syncDir d time).1.DirDurable d := by
      rcases hs.durable with hd | ⟨⟨t, mode, hm⟩, -⟩
      · exact hstay d hd (habove d (Or.inl rfl)).1 (habove d (Or.inl rfl)).2
      · have hmem : PendingOp.createDir d t mode ∈ s.dirFlush d :=
          mem_dirFlush.mpr ⟨hm, by simp [affectsDir]⟩
        obtain ⟨l₁, l₂, hl⟩ := List.append_of_mem hmem
        rw [hl] at hv
        obtain ⟨-, -, hv2⟩ := (kindOps.valid_append (l := l₁)).mp hv
        have htail : ∀ {o}, o ∈ l₂ → o ∈ s.dirFlush d := fun ho => by rw [hl]; simp [ho]
        obtain ⟨h3, h4⟩ := dir_stays (d := d) (q := d)
          (E := syncEntry d (l₁.foldl (syncEntry d) s.syncedEntries) (.createDir d t mode))
          (fun x hx => (habove d (Or.inl rfl)).1 x (htail hx))
          (fun x y hx => (habove d (Or.inl rfl)).2 x y (htail hx)) hv2
          (by simp [kindStep]) (by simp [syncEntry])
        refine ⟨by rw [hE, hl, List.foldl_append]; exact h4, ?_⟩
        rw [hpk, hl, kindOps.replay_append]
        exact h3
    refine ⟨hcoh, by rw [Tree, hkind]; exact h.tree, ⟨hroot, fun p hp hsync => ?_⟩, ?_⟩
    · rw [hE] at hsync
      rcases syncEntry_new hsync with hold | hpar | ⟨rfl, t, mode, hm⟩
      · -- an old entry: its directory was not vacated, so it was not removed or moved
        obtain ⟨q, hq, hdq⟩ := h.durable.2 p hp hold
        exact ⟨q, hq, hstay q hdq (fun x hx e => hs.vacated _ hx p hold (e ▸ hq))
          (fun x y hx e => hs.vacated _ hx p hold (e ▸ hq))⟩
      · exact ⟨d, hpar, hd'⟩
      · rcases hs.durable with hd | ⟨-, q, hq, hdq⟩
        · obtain ⟨q, hq, hdq⟩ := h.durable.2 p hp hd.1
          have := habove q (Or.inr ((Path.mem_ancestors_iff hq).mpr (Or.inl rfl)))
          exact ⟨q, hq, hstay q hdq this.1 this.2⟩
        · have := habove q (Or.inr ((Path.mem_ancestors_iff hq).mpr (Or.inl rfl)))
          exact ⟨q, hq, hstay q hdq this.1 this.2⟩
    · intro src dst hm
      rw [hpend] at hm
      exact h.nesting src dst (List.mem_filter.mp hm).1

end FsState

end Turmoil.Fs
