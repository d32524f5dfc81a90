/-
# What two names of a file share

A hard link is queued with the name it links to.  While it is pending, every reader of the new
name goes on to the old one, so that the two cannot differ, whatever is written through either of
them and whatever else is synced (`Joined`).

A sync of the directory of the new name ends that: the link becomes a copy of the inode as it is
stored then, with the same link count, and from there on the two are files of their own.  They are
equal if nothing else about the two names was pending but the creation of the old one
(`CopiesAll`); and they stay equal as long as nothing is written to either (`Split`).
-/
import Turmoil.Fs.Links

namespace Turmoil.Fs

/-- The paths an operation speaks of. -/
def PendingOp.mentions : PendingOp → List Path
  | .write p _ _ _ => [p]
  | .setLen p _ _ => [p]
  | .setPermissions p _ _ => [p]
  | op => op.names

namespace FsState

/-! ## 1. Sharing -/

/-- Two names show one file. -/
structure Shares (s : FsState) (a b : Path) : Prop where
  len : ∃ n, s.fileLen a = some n ∧ s.fileLen b = some n
  bytes : ∀ bufLen offset, s.readFile a bufLen offset = s.readFile b bufLen offset
  nlink : ∃ n, s.fileNlink a = some n ∧ s.fileNlink b = some n

theorem Shares.of_content {s : FsState} {a b : Path} {c : List UInt8} {n : Nat}
    (ha : s.content a = some c) (hb : s.content b = some c) (hna : s.fileNlink a = some n)
    (hnb : s.fileNlink b = some n) : s.Shares a b where
  len := ⟨c.length, by rw [fileLen_eq_length, ha]; rfl, by rw [fileLen_eq_length, hb]; rfl⟩
  bytes bufLen offset := by rw [readFile_eq_slice, readFile_eq_slice, ha, hb]
  nlink := ⟨n, hna, hnb⟩

/-! ## 2. While the link is pending -/

/-- The first pending link at `b` leads to `a`, and from there the chain ends. -/
structure Joined (s : FsState) (a b : Path) : Prop where
  link : s.resolveHardlinkTarget b = some a
  stops : Stops s.resolveHardlinkTarget a

/-- **One file.**  Whatever is asked of one name is asked of the other. -/
theorem Joined.shares {s : FsState} {a b : Path} (h : s.Joined a b) : s.Shares a b := by
  have hsame : chase s.resolveHardlinkTarget (s.pending.length + 1) b
      = chase s.resolveHardlinkTarget (s.pending.length + 1) a := by
    rw [s.chase_linked (Nat.lt_succ_self _), s.chase_linked (Nat.lt_succ_self _),
      ← s.chase_linked (n := s.pending.length + 2) (by omega), chase_some h.link,
      s.chase_linked (Nat.lt_succ_self _)]
  obtain ⟨n, y, hy⟩ := h.stops
  have hends : chase s.resolveHardlinkTarget (s.pending.length + 1) a = some y := by
    rw [s.chase_linked (Nat.lt_succ_self _)]
    exact chase_bound (fun x hx => mem_linkedPaths hx) hy
  have hpath : s.resolveContentPath a = some (s.resolvePersistedPath y) := by
    rw [resolveContentPath, resolveContentPathIn_eq, hends]
    rfl
  have hpath' : s.resolveContentPath b = some (s.resolvePersistedPath y) := by
    rw [resolveContentPath, resolveContentPathIn_eq, hsame, hends]
    rfl
  refine .of_content (c := s.contentAt (s.resolvePersistedPath y)) (n := s.nlinkAt y) ?_ ?_ ?_ ?_
  · rw [content, hpath]
    rfl
  · rw [content, hpath']
    rfl
  · rw [fileNlink, fileNlinkIn_eq, hends]
    rfl
  · rw [fileNlink, fileNlinkIn_eq, hsame, hends]
    rfl

/-- Only the links matter. -/
theorem Joined.of_same {s t : FsState} {a b : Path} (h : s.Joined a b)
    (hsame : t.resolveHardlinkTarget = s.resolveHardlinkTarget) : t.Joined a b :=
  ⟨by rw [hsame]; exact h.link, by rw [hsame]; exact h.stops⟩

/-! ## 3. Once the link is a copy -/

/-- Both names are stored, with the same bytes and the same link count, and nothing about either
is pending. -/
structure Split (s : FsState) (a b : Path) : Prop where
  stored : ∃ f g, s.persistedFiles.get? a = some f ∧ s.persistedFiles.get? b = some g
    ∧ g.content = f.content ∧ g.nlink = f.nlink
  idle : ∀ op ∈ s.pending, a ∉ op.mentions ∧ b ∉ op.mentions

theorem filter_isDataOf_of_idle {p : Path} {log : List PendingOp}
    (h : ∀ op ∈ log, p ∉ op.mentions) : log.filter (isDataOf p) = [] := by
  refine List.filter_eq_nil_iff.mpr fun op hop hd => h op hop ?_
  cases op with
  | write q offset data time =>
    rw [of_decide_eq_true hd]
    exact List.mem_cons_self
  | setLen q len time =>
    rw [of_decide_eq_true hd]
    exact List.mem_cons_self
  | _ => cases hd

theorem resolveHardlinkTarget_of_idle {s : FsState} {p : Path}
    (h : ∀ op ∈ s.pending, p ∉ op.mentions) : s.resolveHardlinkTarget p = none := by
  refine List.findSome?_eq_none_iff.mpr fun op hop => ?_
  cases op with
  | createHardLink q target time =>
    refine if_neg fun heq => h _ hop ?_
    rw [heq]
    exact List.mem_cons_self
  | _ => rfl

/-- What is stored under a name that nothing pending speaks of is what is read there. -/
theorem read_of_idle {s : FsState} {p : Path} {f : FileData}
    (hf : s.persistedFiles.get? p = some f) (hidle : ∀ op ∈ s.pending, p ∉ op.mentions) :
    s.content p = some f.content ∧ s.fileNlink p = some f.nlink := by
  have hnolink : ∀ target time, PendingOp.createHardLink p target time ∉ s.pending :=
    fun target time hm => hidle _ hm List.mem_cons_self
  have hnosrc : ∀ src, PendingOp.rename src p ∉ s.pending :=
    fun src hm => hidle _ hm (List.mem_cons_of_mem _ List.mem_cons_self)
  have hpull : pullAll s.pending p = p := by
    rcases pullAll_cases s.pending p with hp | ⟨⟨src, hm⟩, -⟩
    · exact hp
    · exact absurd hm (hnosrc src)
  have hdata : s.dataAt p = [] := by
    rw [dataAt_eq_isDataOf hnosrc]
    exact filter_isDataOf_of_idle hidle
  have hnone := resolveHardlinkTarget_of_idle hidle
  refine ⟨?_, ?_⟩
  · rw [content, resolveContentPath_of_no_link hnolink, hpull, Option.map_some, contentAt_eq_view,
      hdata, view_nil, storedContent, hf]
    rfl
  · rw [fileNlink, fileNlinkIn_eq, chase_none hnone, Option.map_some, nlinkAt, hf]
    refine congrArg some ?_
    refine (List.foldl_ext _ (fun nlink _ => nlink) _ fun nlink op hop => ?_).trans
      (List.foldl_fixed' (fun _ => rfl) _)
    cases op with
    | createHardLink q target time =>
      refine if_neg fun heq => hidle _ hop ?_
      rw [heq]
      exact List.mem_cons_of_mem _ List.mem_cons_self
    | _ => rfl

theorem Split.shares {s : FsState} {a b : Path} (h : s.Split a b) : s.Shares a b := by
  obtain ⟨f, g, hf, hg, hcontent, hnlink⟩ := h.stored
  obtain ⟨hca, hna⟩ := read_of_idle hf fun op hop => (h.idle op hop).1
  obtain ⟨hcb, hnb⟩ := read_of_idle hg fun op hop => (h.idle op hop).2
  exact .of_content hca (hcontent ▸ hcb) hna (hnlink ▸ hnb)

/-- An operation leaves the inodes alone that it does not speak of. -/
theorem applyOp_get?_of_not_mentioned (s : FsState) {op : PendingOp} {p : Path}
    (h : p ∉ op.mentions) :
    (s.applyOpToPersisted op).persistedFiles.get? p = s.persistedFiles.get? p := by
  cases op with
  | createFile q time mode =>
    have hq : p ≠ q := List.ne_of_not_mem_cons h
    simp [applyOpToPersisted, hq]
  | createHardLink q target time =>
    have hq : p ≠ q := List.ne_of_not_mem_cons h
    have ht : p ≠ target := List.ne_of_not_mem_cons (List.not_mem_of_not_mem_cons h)
    simp only [applyOpToPersisted]
    split
    · rfl
    · simp [hq, ht]
  | write q offset data time =>
    have hq : p ≠ q := List.ne_of_not_mem_cons h
    simp [applyOpToPersisted, hq]
  | setLen q len time =>
    have hq : p ≠ q := List.ne_of_not_mem_cons h
    simp [applyOpToPersisted, hq]
  | setPermissions q mode time =>
    have hq : p ≠ q := List.ne_of_not_mem_cons h
    simp only [applyOpToPersisted]
    split <;> simp [hq]
  | rename src dst =>
    have hs : p ≠ src := List.ne_of_not_mem_cons h
    have hd : p ≠ dst := List.ne_of_not_mem_cons (List.not_mem_of_not_mem_cons h)
    simp only [applyOpToPersisted]
    split
    · simp [hs, hd]
    · split
      · rfl
      · split <;> rfl
  | removeFile q =>
    have hq : p ≠ q := List.ne_of_not_mem_cons h
    simp [applyOpToPersisted, hq]
  | createDir q time mode => rfl
  | createSymlink q target time => rfl
  | removeDir q => rfl

theorem foldl_applyOp_get?_of_not_mentioned {p : Path} {log : List PendingOp} :
    ∀ {s : FsState}, (∀ op ∈ log, p ∉ op.mentions) →
      (log.foldl applyOpToPersisted s).persistedFiles.get? p = s.persistedFiles.get? p := by
  induction log with
  | nil => exact fun _ => rfl
  | cons op log ih =>
    intro s h
    rw [List.foldl_cons, ih fun o ho => h o (List.mem_cons_of_mem _ ho)]
    exact s.applyOp_get?_of_not_mentioned (h op List.mem_cons_self)

/-- A sync of a directory does nothing to either name. -/
theorem Split.syncDir {s : FsState} {a b d : Path} (h : s.Split a b) (time : Duration) :
    (s.syncDir d time).1.Split a b := by
  cases hex : s.dirExists d with
  | false =>
    rw [syncDir_err hex]
    exact h
  | true =>
    obtain ⟨dirs, heq, -⟩ := syncDir_spec hex time
    obtain ⟨f, g, hf, hg, hsame⟩ := h.stored
    have hflush : ∀ op ∈ s.dirFlush d, a ∉ op.mentions ∧ b ∉ op.mentions :=
      fun op hop => h.idle op (List.mem_filter.mp hop).1
    rw [heq]
    refine ⟨⟨f, g, ?_, ?_, hsame⟩, fun op hop => h.idle op (List.mem_filter.mp hop).1⟩
    · exact (foldl_applyOp_get?_of_not_mentioned fun op hop => (hflush op hop).1).trans hf
    · exact (foldl_applyOp_get?_of_not_mentioned fun op hop => (hflush op hop).2).trans hg

/-- A sync of a file does nothing to an inode that nothing pending speaks of. -/
theorem flushFile_get?_of_idle {s : FsState} {p q : Path} {f : FileData}
    (hf : s.persistedFiles.get? q = some f) (hidle : ∀ op ∈ s.pending, q ∉ op.mentions) :
    (s.flushFile p).1.persistedFiles.get? q = some f := by
  cases hex : s.fileExists p with
  | false =>
    rw [flushFile_err hex]
    exact hf
  | true =>
    by_cases hp : q = p
    · subst hp
      have hnone := filter_isDataOf_of_idle hidle
      have hin : s.persistedFiles.contains q = true := IndexMap.contains_iff.mpr ⟨f, hf⟩
      simp only [flushFile, hex, hnone, hin, Bool.not_true, Bool.false_eq_true, if_false, if_true,
        List.foldl_nil]
      exact hf
    · obtain ⟨files, g, heq, -, -, hother⟩ := flushFile_spec hex
      rw [heq]
      exact (hother q hp).trans hf

theorem Split.flushFile {s : FsState} {a b : Path} (h : s.Split a b) (p : Path) :
    (s.flushFile p).1.Split a b := by
  obtain ⟨f, g, hf, hg, hsame⟩ := h.stored
  refine ⟨⟨f, g, flushFile_get?_of_idle hf fun op hop => (h.idle op hop).1,
    flushFile_get?_of_idle hg fun op hop => (h.idle op hop).2, hsame⟩, fun op hop => ?_⟩
  cases hex : s.fileExists p with
  | false =>
    rw [flushFile_err hex] at hop
    exact h.idle op hop
  | true =>
    obtain ⟨files, g, heq, -⟩ := flushFile_spec hex
    rw [heq] at hop
    exact h.idle op (List.mem_filter.mp hop).1

/-! ## 4. The copy -/

/-- The condition on the sync that makes the link at `b` a copy: what else is pending about the two
names is flushed before it, and about `a` it is nothing but its creation; and `a` is stored by
then. -/
structure CopiesAll (s : FsState) (a b d : Path) : Prop where
  queue : ∃ pre post time, s.pending = pre ++ .createHardLink b a time :: post
    ∧ (∀ op ∈ pre, a ∈ op.mentions →
      affectsDir d op = true ∧ ∃ time mode, op = .createFile a time mode)
    ∧ (∀ op ∈ pre, b ∈ op.mentions → affectsDir d op = true)
    ∧ (∀ op ∈ post, a ∉ op.mentions ∧ b ∉ op.mentions)
    ∧ (s.persistedFiles.contains a = true ∨ ∃ time mode, .createFile a time mode ∈ pre)

/-- Creating a file stores it, and creating it again changes nothing. -/
theorem contains_of_created {a : Path} {log : List PendingOp} : ∀ {s : FsState},
    (∀ op ∈ log, a ∈ op.mentions → ∃ time mode, op = .createFile a time mode) →
    (s.persistedFiles.contains a = true ∨ ∃ time mode, PendingOp.createFile a time mode ∈ log) →
    (log.foldl applyOpToPersisted s).persistedFiles.contains a = true := by
  induction log with
  | nil =>
    rintro s - (h | ⟨time, mode, hm⟩)
    · exact h
    · cases hm
  | cons op log ih =>
    intro s honly hor
    rw [List.foldl_cons]
    refine ih (fun o ho => honly o (List.mem_cons_of_mem _ ho)) ?_
    by_cases ha : a ∈ op.mentions
    · obtain ⟨time, mode, rfl⟩ := honly op List.mem_cons_self ha
      left
      simp [applyOpToPersisted]
    · rcases hor with h | ⟨time, mode, hm⟩
      · left
        rw [IndexMap.contains, s.applyOp_get?_of_not_mentioned ha]
        exact h
      · rcases List.mem_cons.mp hm with rfl | hm
        · exact absurd List.mem_cons_self ha
        · exact Or.inr ⟨time, mode, hm⟩

/-- **The link becomes a copy**, and the two names are equal. -/
theorem CopiesAll.split {s : FsState} {a b d : Path} (h : s.CopiesAll a b d) (hne : a ≠ b)
    (hd : b.parent = some d) (hex : s.dirExists d = true) (time : Duration) :
    (s.syncDir d time).1.Split a b := by
  obtain ⟨pre, post, linked, hpending, hpre, hpre', hpost, hin⟩ := h.queue
  obtain ⟨dirs, heq, -⟩ := syncDir_spec hex time
  have hflush : s.dirFlush d = pre.filter (affectsDir d)
      ++ .createHardLink b a linked :: post.filter (affectsDir d) := by
    rw [dirFlush, hpending, List.filter_append,
      List.filter_cons_of_pos (by simp [affectsDir, hd])]
  have hkeep : s.dirKeep d = pre.filter (fun op => !affectsDir d op)
      ++ post.filter (fun op => !affectsDir d op) := by
    rw [dirKeep, hpending, List.filter_append,
      List.filter_cons_of_neg (by simp [affectsDir, hd])]
  rw [heq]
  refine ⟨?_, fun op hop => ?_⟩
  · show ∃ f g, ((s.dirFlush d).foldl applyOpToPersisted s).persistedFiles.get? a = some f ∧ _
    rw [hflush, List.foldl_append, List.foldl_cons]
    have hstored : ((pre.filter (affectsDir d)).foldl applyOpToPersisted s).persistedFiles.contains a
        = true := by
      refine contains_of_created (fun op hop => ?_) ?_
      · exact fun ha => (hpre op (List.mem_filter.mp hop).1 ha).2
      · refine hin.imp_right (Exists.imp fun time => Exists.imp fun mode hm => ?_)
        refine List.mem_filter.mpr ⟨hm, ?_⟩
        exact (hpre _ hm List.mem_cons_self).1
    generalize (pre.filter (affectsDir d)).foldl applyOpToPersisted s = t at hstored
    obtain ⟨f, hf⟩ := IndexMap.contains_iff.mp hstored
    have hrest : ∀ op ∈ post.filter (affectsDir d), a ∉ op.mentions ∧ b ∉ op.mentions :=
      fun op hop => hpost op (List.mem_filter.mp hop).1
    refine ⟨{ f with nlink := f.nlink + 1, ctime := linked }, { f with nlink := f.nlink + 1 },
      ?_, ?_, rfl, rfl⟩
    · rw [foldl_applyOp_get?_of_not_mentioned fun op hop => (hrest op hop).1]
      simp [applyOpToPersisted, hf, hne]
    · rw [foldl_applyOp_get?_of_not_mentioned fun op hop => (hrest op hop).2]
      simp [applyOpToPersisted, hf]
  · rcases List.mem_append.mp (hkeep ▸ hop : op ∈ _ ++ _) with hop | hop
    · obtain ⟨hmem, hno⟩ := List.mem_filter.mp hop
      refine ⟨fun ha => ?_, fun hb => ?_⟩
      · rw [(hpre op hmem ha).1] at hno
        cases hno
      · rw [hpre' op hmem hb] at hno
        cases hno
    · exact hpost op (List.mem_filter.mp hop).1

/-! ## 5. Runs -/

/-- The condition on a call after the link was made: it writes or syncs, no byte is written once
the link is a copy, and the sync that makes it one copies all there is. -/
def ShareOk (a b : Path) (s : FsState) : FsOp → Prop
  | .writeFile _ _ data _ => s.resolveHardlinkTarget b = some a ∨ data = []
  | .setFileLen _ _ _ => s.resolveHardlinkTarget b = some a
  | .syncFile _ => True
  | .syncFileData _ => True
  | .syncDir d _ => b.parent = some d → s.dirExists d = true →
    s.resolveHardlinkTarget b = some a → s.CopiesAll a b d
  | _ => False

/-- **One call** after the link was made. -/
theorem shared_step {s : FsState} {a b : Path} (hne : a ≠ b) (h : s.Joined a b ∨ s.Split a b)
    {op : FsOp} (hop : ShareOk a b s op) :
    (s.apply op).1.Joined a b ∨ (s.apply op).1.Split a b := by
  have hflush : ∀ p, (s.flushFile p).1.Joined a b ∨ (s.flushFile p).1.Split a b := fun p =>
    h.imp (fun hj => hj.of_same (s.flushFile_resolveHardlinkTarget p)) fun hs => hs.flushFile p
  -- while the link is pending it is no copy yet
  have joined : s.resolveHardlinkTarget b = some a → s.Joined a b := by
    intro hlink
    rcases h with hj | hs
    · exact hj
    · cases hlink.symm.trans (resolveHardlinkTarget_of_idle fun op hop => (hs.idle op hop).2)
  cases op with
  | writeFile p offset data time =>
    cases data with
    | nil => exact h
    | cons x data =>
      rcases hop with hlink | hnil
      · exact Or.inl ((joined hlink).of_same (s.resolveHardlinkTarget_push_of_none fun _ => rfl))
      · cases hnil
  | setFileLen p len time =>
    exact Or.inl ((joined hop).of_same
      ((s.invalidateCache p).resolveHardlinkTarget_push_of_none fun _ => rfl))
  | syncFile p => exact hflush p
  | syncFileData p => exact hflush p
  | syncDir d time =>
    rcases h with hj | hs
    · cases hex : s.dirExists d with
      | false =>
        rw [apply, syncDir_err hex]
        exact Or.inl hj
      | true =>
        by_cases hd : b.parent = some d
        · exact Or.inr ((hop hd hex hj.link).split hne hd hex time)
        · obtain ⟨dirs, heq, -⟩ := syncDir_spec hex time
          have hp : (s.syncDir d time).1.pending = s.dirKeep d := by rw [heq]
          exact Or.inl ⟨(resolveHardlinkTarget_dirKeep_of_ne hp hd).trans hj.link,
            hj.stops.restrict (resolveHardlinkTarget_dirKeep hp)⟩
    · exact Or.inr (hs.syncDir time)
  | _ => exact absurd hop id

/-- The condition on the link itself: no link of an earlier file of that name is pending, and the
chain of links from the old name ends, and not at the new one. -/
structure LinkFresh (s : FsState) (a b : Path) : Prop where
  unlinked : s.resolveHardlinkTarget b = none
  stops : Stops s.resolveHardlinkTarget a
  noCircle : ¬ Relation.ReflTransGen (Leads s.resolveHardlinkTarget) a b

theorem LinkFresh.joined {s : FsState} {a b : Path} (h : s.LinkFresh a b) (time : Duration) :
    (s.push (.createHardLink b a time)).Joined a b := by
  have hnew := s.resolveHardlinkTarget_push_link h.unlinked a time
  refine ⟨?_, ?_⟩
  · rw [hnew, Function.update_self]
  · rw [hnew]
    exact h.stops.update_of_not_reached h.noCircle

/-- **Hard links share content.**  In whatever state a link is made, if it meets its condition then
after every sequence of writes through either name and of syncs whose calls meet theirs, both names
have the same length, the same bytes and the same link count. -/
theorem hard_links_share {s : FsState} {a b : Path} {time : Duration}
    (hok : (s.createHardLink b a time).2 = .ok ()) (hfresh : s.LinkFresh a b) (ops : List FsOp)
    (hops : Along (ShareOk a b) (s.createHardLink b a time).1 ops) :
    ((s.createHardLink b a time).1.run ops).Shares a b := by
  rcases s.createHardLink_cases b a time with ⟨e, he⟩ | ⟨he, -, hnone, hfile⟩
  · rw [he] at hok
    cases hok
  · have hne : a ≠ b := by
      rintro rfl
      cases hnone.symm.trans hfile
    rw [he] at hops ⊢
    have hstep : ∀ (t : FsState) op, (t.Joined a b ∨ t.Split a b) → ShareOk a b t op →
        ((t.apply op).1.Joined a b ∨ (t.apply op).1.Split a b) :=
      fun _ _ h hop => shared_step hne h hop
    exact (Turmoil.Along.invariant hstep (Or.inl (hfresh.joined time)) hops).elim Joined.shares
      Split.shares

/-- A file of one byte that is not durable yet. -/
def oneByte : FsState :=
  (FsState.new .default).run [.createFile (.abs ["a"]) 0 0o644, .writeFile (.abs ["a"]) 0 [1] 0]

/-- It can be linked to. -/
theorem oneByte_link : (oneByte.createHardLink (.abs ["b"]) (.abs ["a"]) 1).2 = .ok ()
    ∧ oneByte.LinkFresh (.abs ["a"]) (.abs ["b"]) := by
  have hnone : oneByte.resolveHardlinkTarget (.abs ["a"]) = none := by decide
  refine ⟨by decide, by decide, stops_of_none hnone, fun hreach => ?_⟩
  rcases Relation.ReflTransGen.cases_head hreach with heq | ⟨c, hc, -⟩
  · exact absurd heq (by decide)
  · cases hnone.symm.trans hc

/-- The byte and one that is written through the new name are synced before the directory is. -/
def syncedInTime : List FsOp :=
  [.writeFile (.abs ["b"]) 1 [2] 2, .syncFile (.abs ["a"]), .syncFile (.abs ["b"]),
    .syncDir Path.root 3, .syncFileData (.abs ["b"])]

theorem hard_links_share_synced : Along (ShareOk (.abs ["a"]) (.abs ["b"]))
      (oneByte.createHardLink (.abs ["b"]) (.abs ["a"]) 1).1 syncedInTime
    ∧ ((oneByte.createHardLink (.abs ["b"]) (.abs ["a"]) 1).1.run syncedInTime).Shares
      (.abs ["a"]) (.abs ["b"]) := by
  have hops : Along (ShareOk (.abs ["a"]) (.abs ["b"]))
      (oneByte.createHardLink (.abs ["b"]) (.abs ["a"]) 1).1 syncedInTime := by
    refine ⟨Or.inl (by decide), trivial, trivial, fun _ _ _ => ⟨?_⟩, trivial, trivial⟩
    refine ⟨[.createFile (.abs ["a"]) 0 0o644], [], 1, by decide, ?_, ?_, nofun, Or.inl (by decide)⟩
    · intro op hop _
      cases List.mem_singleton.mp hop
      exact ⟨by decide, 0, 0o644, rfl⟩
    · intro op hop hb
      cases List.mem_singleton.mp hop
      exact absurd hb (by decide)
  exact ⟨hops, hard_links_share oneByte_link.1 oneByte_link.2 syncedInTime hops⟩

/-- **A copy that comes too early.**  The byte was not synced when the link became a copy. -/
theorem linked_but_different : (oneByte.createHardLink (.abs ["b"]) (.abs ["a"]) 1).2 = .ok ()
    ∧ oneByte.LinkFresh (.abs ["a"]) (.abs ["b"])
    ∧ ¬ ((oneByte.createHardLink (.abs ["b"]) (.abs ["a"]) 1).1.run [.syncDir Path.root 3]).Shares
      (.abs ["a"]) (.abs ["b"]) := by
  refine ⟨oneByte_link.1, oneByte_link.2, fun h => ?_⟩
  obtain ⟨n, ha, hb⟩ := h.len
  exact absurd (ha.trans hb.symm) (by decide)

end FsState

end Turmoil.Fs
