/-
# Renaming

A rename is queued, and every reader resolves it in its own way.  The kind walks back from the new
name to the old one and finds nothing at the old one; a link is looked up under the old name; the
modes are not moved at all; and the bytes are found by three walks, along the pending hard links,
backwards over the renames to the name they are stored under, and forwards over the renames from
the name a write was recorded under.

So kinds and link targets always come out right, and what goes wrong goes wrong elsewhere.  Nothing
below a directory is moved with it (`RenameOk.empty`); a name with a pending hard link, or that one
leads to, is resolved before the rename is seen (`RenameOk.links`); and a write that was recorded
under some name follows every later rename of that name, whoever's bytes it then ends up with
(`RenameOk.writes`).  Where none of this happens, a rename moves exactly its source.
-/
import Turmoil.Fs.Links
import Turmoil.Fs.SyncView

namespace Turmoil.Fs

/-- The path that stands to `b` as `q` stands to `a`. -/
def Path.rebase (a b q : Path) : Path := ⟨b.hasRoot, b.comps ++ q.comps.drop a.comps.length⟩

namespace FsState

/-! ## 1. What a rename ought to do -/

/-- Neither of two paths, and not below either. -/
def Outside (a b q : Path) : Prop := q ≠ a ∧ q ≠ b ∧ a ∉ q.ancestors ∧ b ∉ q.ancestors

/-- The same bytes are read under one name as were under another. -/
structure SameBytes (s s' : FsState) (p q : Path) : Prop where
  len : s'.fileLen q = s.fileLen p
  bytes : ∀ bufLen offset, s'.readFile q bufLen offset = s.readFile p bufLen offset

/-- What was at `a` is at `b`, and nothing else has changed. -/
structure Moved (s s' : FsState) (a b : Path) : Prop where
  gone : s'.entryKind a = none
  kind : s'.entryKind b = s.entryKind a
  file : s.entryKind a = some .file → SameBytes s s' a b
  link : s.entryKind a = some .symlink → s'.readLink b = s.readLink a
  below : s.entryKind a = some .directory → ∀ q, a ∈ q.ancestors → s'.entryKind q = none
    ∧ ∀ k, s.entryKind q = some k → s'.entryKind (q.rebase a b) = some k
      ∧ (k = .file → SameBytes s s' q (q.rebase a b))
      ∧ (k = .symlink → s'.readLink (q.rebase a b) = s.readLink q)
  outside : ∀ q, Outside a b q → s'.entryKind q = s.entryKind q
    ∧ (s.entryKind q = some .file → SameBytes s s' q q) ∧ s'.readLink q = s.readLink q
    ∧ s'.fileMode q = s.fileMode q ∧ s'.dirMode q = s.dirMode q

/-- Renaming a path to itself does nothing; to another, it moves exactly the source. -/
def RenameMoves (s : FsState) (a b : Path) : Prop :=
  if a = b then SameView s (s.rename a b).1 else Moved s (s.rename a b).1 a b

/-! ## 2. Bytes after a rename -/

section Bytes

variable {s : FsState} {a b : Path}

theorem SameBytes.of_content {s s' : FsState} {p q : Path} (h : s'.content q = s.content p) :
    SameBytes s s' p q where
  len := by rw [fileLen_eq_length, fileLen_eq_length, h]
  bytes n off := by rw [readFile_eq_slice, readFile_eq_slice, h]

/-- Where the pending links from `q` end. -/
def linkEnd (s : FsState) (q : Path) : Option Path :=
  chase s.resolveHardlinkTarget (s.pending.length + 1) q

theorem resolveContentPath_eq_linkEnd (s : FsState) (q : Path) :
    s.resolveContentPath q = (s.linkEnd q).map (pullAll s.pending) := by
  rw [resolveContentPath, resolveContentPathIn_eq, resolvePersistedPath_eq]
  rfl

theorem linkEnd_of_none {q : Path} (h : s.resolveHardlinkTarget q = none) : s.linkEnd q = some q :=
  chase_none h _

/-- A name that a rename led to is now stored where its source is. -/
theorem resolveContentPath_rename (s : FsState) (a b q : Path) :
    (s.push (.rename a b)).resolveContentPath q
      = (s.linkEnd q).map fun y => pullAll s.pending (if b = y then a else y) := by
  have hlinks := s.resolveHardlinkTarget_push_of_none (o := .rename a b) fun _ => rfl
  have hend : (s.push (.rename a b)).linkEnd q = s.linkEnd q := by
    rw [linkEnd, hlinks, s.chase_linked, linkEnd, s.chase_linked (Nat.lt_succ_self _)]
    rw [push, List.length_append]
    exact Nat.lt_succ_of_le (Nat.le_add_right _ _)
  rw [resolveContentPath_eq_linkEnd, hend]
  refine congrArg (fun f => (s.linkEnd q).map f) ?_
  funext y
  exact List.foldr_append ..

/-- A name that leads elsewhere is stored where it was. -/
theorem resolveContentPath_rename_of_ne {q : Path} (h : s.linkEnd q ≠ some b) :
    (s.push (.rename a b)).resolveContentPath q = s.resolveContentPath q := by
  rw [resolveContentPath_rename, resolveContentPath_eq_linkEnd]
  cases hy : s.linkEnd q with
  | none => rfl
  | some y => rw [Option.map_some, Option.map_some, if_neg fun e => h (by rw [hy, e])]

/-- The new name, if no link is pending at it or its source, is stored where the source was. -/
theorem resolveContentPath_rename_dst (ha : s.resolveHardlinkTarget a = none)
    (hb : s.resolveHardlinkTarget b = none) :
    (s.push (.rename a b)).resolveContentPath b = s.resolveContentPath a := by
  rw [resolveContentPath_rename, resolveContentPath_eq_linkEnd, linkEnd_of_none ha,
    linkEnd_of_none hb, Option.map_some, Option.map_some, if_pos rfl]

theorem pathRenamedTo_rename (s : FsState) (a b p c : Path) :
    (s.push (.rename a b)).pathRenamedTo p c
      = decide ((if a = pushAll s.pending p then b else pushAll s.pending p) = c) := by
  rw [pathRenamedTo_eq]
  congr 2
  exact List.foldl_append ..

/-- The bytes stored under `c` come out as before, if no write recorded under another name is on
its way to `a`, or `c` has nothing to do with the rename. -/
theorem contentAt_rename {c : Path}
    (h : ∀ op ∈ s.pending, ∀ p, isDataOf p op = true → pushAll s.pending p = a → p ≠ c →
      c ≠ a ∧ c ≠ b) :
    (s.push (.rename a b)).contentAt c = s.contentAt c := by
  have haddr : ∀ op ∈ s.pending, ∀ p, isDataOf p op = true →
      (s.push (.rename a b)).addressesContent p c = s.addressesContent p c := by
    intro op hop p hp
    rw [addressesContent, addressesContent, pathRenamedTo_rename, pathRenamedTo_eq]
    by_cases hpc : p = c
    · rw [decide_eq_true hpc, Bool.true_or, Bool.true_or]
    · rw [decide_eq_false hpc, Bool.false_or, Bool.false_or]
      by_cases ha : a = pushAll s.pending p
      · obtain ⟨hca, hcb⟩ := h op hop p hp ha.symm hpc
        rw [if_pos ha, ← ha, decide_eq_false (Ne.symm hcb), decide_eq_false (Ne.symm hca)]
      · rw [if_neg ha]
  have hdata : (s.push (.rename a b)).dataAt c = s.dataAt c := by
    have hrename : (s.push (.rename a b)).isDataAt c (.rename a b) = false := rfl
    show (s.pending ++ [PendingOp.rename a b]).filter _ = _
    rw [List.filter_append, List.filter_cons_of_neg (by rw [hrename]; exact Bool.false_ne_true), List.filter_nil,
      List.append_nil, dataAt]
    refine List.filter_congr fun op hop => ?_
    cases op with
    | write p offset data time => exact haddr _ hop p (decide_eq_true rfl)
    | setLen p len time => exact haddr _ hop p (decide_eq_true rfl)
    | _ => rfl
  rw [contentAt_eq_view, contentAt_eq_view, hdata]
  rfl

end Bytes

/-! ## 3. When a rename moves exactly its source -/

/-- The condition on a rename that succeeds. -/
structure RenameOk (s : FsState) (a b : Path) : Prop where
  distinct : a ≠ b
  /-- A directory has nothing below it, and is not moved below itself. -/
  empty : s.entryKind a = some .directory →
    a ∉ b.ancestors ∧ ∀ q, a ∈ q.ancestors → s.entryKind q = none
  /-- No link is pending at a file that is moved or where it is moved to. -/
  source : s.entryKind a = some .file →
    s.resolveHardlinkTarget a = none ∧ s.resolveHardlinkTarget b = none
  /-- No other file is linked to the name moved onto. -/
  links : ∀ q, Outside a b q → s.entryKind q = some .file → s.linkEnd q ≠ some b
  /-- Where the bytes of a file that stays or is moved are stored under one of the two names, no
  write recorded under another name is on its way to the source. -/
  writes : ∀ q, q = a ∨ Outside a b q → s.entryKind q = some .file → ∀ c,
    s.resolveContentPath q = some c → c = a ∨ c = b → ∀ op ∈ s.pending, ∀ p,
      isDataOf p op = true → s.pathRenamedTo p a = true → p = c

section Rename

variable {s : FsState} {a b : Path}

theorem RenameOk.contentAt_eq (h : s.RenameOk a b) {q c : Path} (hq : q = a ∨ Outside a b q)
    (hfile : s.entryKind q = some .file) (hc : s.resolveContentPath q = some c) :
    (s.push (.rename a b)).contentAt c = s.contentAt c := by
  refine contentAt_rename fun op hop p hd hp hne => ?_
  have hto : s.pathRenamedTo p a = true := by
    rw [pathRenamedTo_eq]
    exact decide_eq_true hp
  have hnot : ¬ (c = a ∨ c = b) := fun hor => hne (h.writes q hq hfile c hc hor op hop p hd hto)
  exact not_or.mp hnot

/-- **The bytes of a file go with it.** -/
theorem RenameOk.content_moved (h : s.RenameOk a b) (hfile : s.entryKind a = some .file) :
    (s.push (.rename a b)).content b = s.content a := by
  obtain ⟨ha, hb⟩ := h.source hfile
  have hca : s.resolveContentPath a = some (pullAll s.pending a) := by
    rw [resolveContentPath_eq_linkEnd, linkEnd_of_none ha]
    rfl
  rw [content, content, resolveContentPath_rename_dst ha hb, hca, Option.map_some, Option.map_some,
    h.contentAt_eq (Or.inl rfl) hfile hca]

/-- **The bytes of other files stay.** -/
theorem RenameOk.content_outside (h : s.RenameOk a b) {q : Path} (hq : Outside a b q)
    (hfile : s.entryKind q = some .file) : (s.push (.rename a b)).content q = s.content q := by
  rw [content, content, resolveContentPath_rename_of_ne (h.links q hq hfile)]
  cases hc : s.resolveContentPath q with
  | none => rfl
  | some c => rw [Option.map_some, Option.map_some, h.contentAt_eq (Or.inr hq) hfile hc]

/-- A link is looked up under the name its source was looked up under. -/
theorem readLink_rename (s : FsState) (a b q : Path) :
    (s.push (.rename a b)).readLink q = s.readLink (if b = q then a else q) := by
  have hpull : pullAll (s.push (.rename a b)).pending q = pullAll s.pending (if b = q then a else q) :=
    List.foldr_append ..
  have hfold : (s.push (.rename a b)).pending.foldl linkStep (s.push (.rename a b)).storedLink
      = s.pending.foldl linkStep s.storedLink := List.foldl_append ..
  rw [readLink_eq, readLink_eq, hpull, hfold]

/-- Modes do not look at renames. -/
theorem modes_rename (s : FsState) (a b q : Path) :
    (s.push (.rename a b)).fileMode q = s.fileMode q
      ∧ (s.push (.rename a b)).dirMode q = s.dirMode q := by
  have hrev : (s.push (.rename a b)).pending.reverse = .rename a b :: s.pending.reverse :=
    List.reverse_append ..
  refine ⟨?_, ?_⟩
  · rw [fileMode, hrev]
    rfl
  · rw [dirMode, hrev]
    rfl

theorem RenameOk.moved (h : s.RenameOk a b) : Moved s (s.push (.rename a b)) a b := by
  have hkind : ∀ q, (s.push (.rename a b)).entryKind q
      = if a = q then none else if b = q then s.entryKind a else s.entryKind q := by
    intro q
    rw [entryKind_push]
    rfl
  refine ⟨by rw [hkind, if_pos rfl], ?_, fun hfile => .of_content (h.content_moved hfile),
    fun _ => ?_, fun hdir q hq => ?_, fun q hq => ?_⟩
  · rw [hkind, if_neg h.distinct, if_pos rfl]
  · rw [readLink_rename, if_pos rfl]
  · obtain ⟨hb, hnone⟩ := h.empty hdir
    have hbq : b ≠ q := fun e => hb (e ▸ hq)
    refine ⟨?_, fun k hk => ?_⟩
    · rw [hkind, if_neg (Path.ne_of_mem_ancestors hq), if_neg hbq, hnone q hq]
    · rw [hnone q hq] at hk
      cases hk
  · have hqa := hq.1
    have hqb := hq.2.1
    refine ⟨?_, fun hfile => .of_content (h.content_outside hq hfile), ?_, modes_rename s a b q⟩
    · rw [hkind, if_neg (Ne.symm hqa), if_neg (Ne.symm hqb)]
    · rw [readLink_rename, if_neg (Ne.symm hqb)]

end Rename

/-- **Rename moves exactly the source.**  In every state of a run, a rename that succeeds and meets
its condition leaves nothing at the old path, what was there at the new one, and everything else
as it was. -/
theorem rename_moves (config : FsConfig) (ops : List FsOp) {a b : Path}
    (hok : (((FsState.new config).run ops).rename a b).2 = .ok ())
    (h : ((FsState.new config).run ops).RenameOk a b) :
    ((FsState.new config).run ops).RenameMoves a b := by
  rw [RenameMoves, if_neg h.distinct]
  rcases ((FsState.new config).run ops).rename_cases a b with ⟨e, he⟩ | ⟨he, -⟩
  · rw [he] at hok
    cases hok
  · rw [he]
    exact h.moved

/-- A file with a byte is moved. -/
theorem rename_moves_file :
    ((FsState.new .default).run [.createFile (.abs ["a"]) 0 0o644,
      .writeFile (.abs ["a"]) 0 [1] 0]).RenameMoves (.abs ["a"]) (.abs ["b"]) := by
  refine rename_moves .default _ (by decide) ⟨by decide, fun hdir => ?_, fun _ => by decide, ?_, ?_⟩
  · exact absurd hdir (by decide)
  · intro q hq _ hend
    have hself : some q = some (Path.abs ["b"]) := hend
    exact hq.2.1 (Option.some.inj hself)
  · intro q hq _ c hc hor op hop p hd _
    have hqc : q = c := Option.some.inj hc
    -- only `/a` has a write, and nothing else is stored under either name
    have hca : c = .abs ["a"] := by
      rcases hq with ha | hout
      · exact hqc.symm.trans ha
      · rcases hor with h | h
        · exact h
        · exact absurd (hqc.trans h) hout.2.1
    rw [hca]
    rcases List.mem_cons.mp hop with rfl | hop
    · cases hd
    · cases List.mem_singleton.mp hop
      exact (of_decide_eq_true hd).symm

/-- **What is below a directory stays behind.** -/
theorem moved_without_its_entries :
    (((FsState.new .default).run [.mkdir (.abs ["d"]) 0 0o755,
        .createFile (.abs ["d", "f"]) 0 0o644]).rename (.abs ["d"]) (.abs ["e"])).2 = .ok ()
      ∧ ¬ ((FsState.new .default).run [.mkdir (.abs ["d"]) 0 0o755,
        .createFile (.abs ["d", "f"]) 0 0o644]).RenameMoves (.abs ["d"]) (.abs ["e"]) := by
  refine ⟨by decide, fun h => ?_⟩
  rw [RenameMoves, if_neg (by decide)] at h
  have hgone := (h.below (by decide) (.abs ["d", "f"]) (by decide)).1
  exact absurd hgone (by decide)

end FsState

end Turmoil.Fs
