/-
# Where symbolic links point

`read_link` walks the queue twice.  It first follows every pending rename backwards, from the name
it is given to the name the entry was stored under; it then looks for what the queue created or
removed under that name, at whatever time.  Whether a creation came before or after the renames it
does not ask.

What it ought to find is kept beside the run: `Targets.now` has the links as the calls made them,
moved by each rename, and `Targets.disk` those that a sync of their directory made durable, which
is what a crash leaves.  One call that is only queued keeps the agreement exactly if no name but
its own is walked back to the name it writes under (`reads_push`); the condition `LinkCallOk` says
so for each kind of call, and asks that no link is renamed, because its old name goes on answering.

The main theorem is about runs: after calls that all meet the condition, `read_link` answers with
the target that was given, and answers exactly where there is a link.
-/
import Turmoil.Fs.SyncView

namespace Turmoil.Fs

/-! ## 1. The links as they ought to be -/

/-- The links, by name, with their targets, after one operation. -/
def linkUpdate (m : Path → Option Path) : PendingOp → Path → Option Path
  | .createSymlink p target _ => Function.update m p (some target)
  | .createFile p _ _ => Function.update m p none
  | .createDir p _ _ => Function.update m p none
  | .createHardLink p _ _ => Function.update m p none
  | .removeFile p => Function.update m p none
  | .removeDir p => Function.update m p none
  | .rename src dst =>
    if src = dst then m else Function.update (Function.update m dst (m src)) src none
  | _ => m

/-- The name at which an operation makes or removes something that is no link, unlike
`remove_file`. -/
def PendingOp.cleared : PendingOp → Option Path
  | .createFile p _ _ => some p
  | .createDir p _ _ => some p
  | .createHardLink p _ _ => some p
  | .removeDir p => some p
  | _ => none

/-- **Kinds and links go together**: an operation makes of the one what it makes of the other,
unless it renames a link to its own name. -/
theorem kindStep_iff_linkUpdate {base : Path → Option EntryKind} {m : Path → Option Path}
    (h : ∀ q, base q = some .symlink ↔ m q ≠ none) {o : PendingOp}
    (hself : ∀ p, o = .rename p p → m p = none) (q : Path) :
    kindStep base o q = some .symlink ↔ linkUpdate m o q ≠ none := by
  have hset : ∀ (p : Path) (k : Option EntryKind) (t : Option Path),
      (k = some .symlink ↔ t ≠ none) →
      ((if p = q then k else base q) = some .symlink ↔ Function.update m p t q ≠ none) := by
    intro p k t hkt
    by_cases hq : p = q
    · subst hq
      rw [if_pos rfl, Function.update_self, hkt]
    · rw [if_neg hq, Function.update_of_ne (Ne.symm hq), h]
  have hgone : ∀ k : Option EntryKind, k ≠ some .symlink →
      (k = some .symlink ↔ (none : Option Path) ≠ none) :=
    fun k hk => iff_of_false hk fun hne => hne rfl
  cases o with
  | createSymlink p target time => exact hset p _ _ (iff_of_true rfl nofun)
  | createFile p time mode => exact hset p _ _ (hgone _ nofun)
  | createDir p time mode => exact hset p _ _ (hgone _ nofun)
  | createHardLink p target time => exact hset p _ _ (hgone _ nofun)
  | removeFile p => exact hset p _ _ (hgone _ nofun)
  | removeDir p => exact hset p _ _ (hgone _ nofun)
  | rename src dst =>
    simp only [kindStep, linkUpdate]
    by_cases hsd : src = dst
    · subst hsd
      have hnone := hself src rfl
      rw [if_pos rfl]
      by_cases hq : src = q
      · rw [if_pos hq, ← hq, hnone]
        exact hgone none nofun
      · rw [if_neg hq, if_neg hq, h]
    · rw [if_neg hsd]
      by_cases hq : src = q
      · rw [if_pos hq, ← hq, Function.update_self]
        exact hgone none nofun
      · rw [if_neg hq, Function.update_of_ne (Ne.symm hq)]
        exact hset dst _ _ (h src)
  | write p offset data time => exact h q
  | setLen p len time => exact h q
  | setPermissions p mode time => exact h q

/-- An operation on names that hold no link is not looked at by `read_link`, if it neither makes
a link nor removes a file. -/
theorem linkUpdate_eq_linkStep {m : Path → Option Path} {o : PendingOp}
    (hfree : ∀ p, o.cleared = some p → m p = none)
    (hmoved : ∀ src dst, o = .rename src dst → m src = none ∧ m dst = none) :
    linkUpdate m o = FsState.linkStep m o := by
  have hclear : ∀ p, m p = none → Function.update m p none = m := by
    intro p hp
    rw [← hp, Function.update_eq_self]
  cases o with
  | createSymlink p target time =>
    funext q
    simp only [linkUpdate, FsState.linkStep, Function.update_apply, eq_comm (a := q)]
  | removeFile p =>
    funext q
    simp only [linkUpdate, FsState.linkStep, Function.update_apply, eq_comm (a := q)]
  | createFile p time mode => exact hclear p (hfree p rfl)
  | createDir p time mode => exact hclear p (hfree p rfl)
  | createHardLink p target time => exact hclear p (hfree p rfl)
  | removeDir p => exact hclear p (hfree p rfl)
  | rename src dst =>
    obtain ⟨hsrc, hdst⟩ := hmoved src dst rfl
    simp only [linkUpdate, hsrc, hclear dst hdst, hclear src hsrc, ite_self]
    rfl
  | write p offset data time => rfl
  | setLen p len time => rfl
  | setPermissions p mode time => rfl

/-- The links there are, and the links a crash would leave. -/
structure Targets where
  now : Path → Option Path
  disk : Path → Option Path

/-- A file system without links. -/
def Targets.none : Targets := ⟨fun _ => .none, fun _ => .none⟩

namespace FsState

/-- The links after a call.  A sync of a directory makes durable what was done in it; a crash
leaves what is durable. -/
def nextTargets (s : FsState) (g : Targets) (op : FsOp) : Targets :=
  if (s.apply op).2.toBool = false then g
  else
    match op with
    | .syncDir d _ => { g with disk := (s.dirFlush d).foldl linkUpdate g.disk }
    | .crash _ =>
      let kept p := if s.syncedEntries.contains p then g.disk p else none
      ⟨kept, kept⟩
    | op =>
      match queued op with
      | some o => { g with now := linkUpdate g.now o }
      | none => g

/-- The links after a history. -/
def targets (s : FsState) (g : Targets) : List FsOp → Targets
  | [] => g
  | op :: ops => targets (s.apply op).1 (s.nextTargets g op) ops

/-! ## 2. What `read_link` finds -/

/-- The two walks of `read_link`. -/
def reads (s : FsState) (q : Path) : Option Path :=
  s.pending.foldl linkStep s.storedLink (s.resolvePersistedPath q)

theorem readLink_eq_ok {s : FsState} {q target : Path} :
    s.readLink q = .ok target ↔ s.reads q = some target := by
  rw [readLink_eq, reads, resolvePersistedPath_eq]
  cases s.pending.foldl linkStep s.storedLink (pullAll s.pending q) with
  | none => exact ⟨nofun, nofun⟩
  | some t => exact ⟨fun h => congrArg some (Except.ok.inj h), fun h => congrArg _ (Option.some.inj h)⟩

/-- A queued operation is seen under the name it was queued with, by whatever is walked back to
it. -/
theorem reads_push (s : FsState) (o : PendingOp) (q : Path) :
    (s.push o).reads q
      = linkStep (s.pending.foldl linkStep s.storedLink) o (s.resolvePersistedPath (pullPath o q)) := by
  have hpull : pullAll (s.pending ++ [o]) q = pullAll s.pending (pullPath o q) := List.foldr_append ..
  have hfold : (s.pending ++ [o]).foldl linkStep s.storedLink
      = linkStep (s.pending.foldl linkStep s.storedLink) o := List.foldl_append ..
  rw [reads, resolvePersistedPath_eq, resolvePersistedPath_eq]
  show (s.pending ++ [o]).foldl linkStep s.storedLink (pullAll (s.pending ++ [o]) q) = _
  rw [hpull, hfold]

/-- What there is to read in a state, and what ought to be. -/
structure Agrees (s : FsState) (g : Targets) : Prop where
  reads : s.reads = g.now
  kind : ∀ q, s.entryKind q = some .symlink ↔ g.now q ≠ none
  disk : s.storedLink = g.disk

/-- `read_link` tells the truth about every path. -/
def ReadsTargets (s : FsState) (m : Path → Option Path) : Prop :=
  ∀ p, (∀ target, s.readLink p = .ok target ↔ m p = some target)
    ∧ (s.entryKind p = some .symlink ↔ ∃ target, s.readLink p = .ok target)

theorem Agrees.readsTargets {s : FsState} {g : Targets} (h : s.Agrees g) :
    s.ReadsTargets g.now := by
  refine fun p => ⟨fun target => ?_, ?_⟩
  · rw [readLink_eq_ok, h.reads]
  · rw [h.kind, Option.ne_none_iff_exists']
    simp only [readLink_eq_ok, h.reads]

/-! ## 3. Calls that are queued -/

/-- The condition on what is queued. -/
def LinkOpOk (s : FsState) : PendingOp → Prop
  | .createSymlink p target _ => s.resolvePersistedPath p = p
    ∧ ∀ q, q ≠ p → s.resolvePersistedPath q = p → s.readLink q = .ok target
  | .removeFile p => (s.entryKind p = some .symlink → s.resolvePersistedPath p = p)
    ∧ ∀ q, q ≠ p → s.resolvePersistedPath q = p → s.entryKind q ≠ some .symlink
  | .rename src _ => s.entryKind src ≠ some .symlink
  | _ => True

section Queued

variable {s : FsState} {g : Targets} (h : s.Agrees g)

include h

theorem Agrees.now_eq_none {q : Path} (hq : s.entryKind q ≠ some .symlink) : g.now q = none := by
  by_contra hne
  exact hq ((h.kind q).mpr hne)

/-- **What `read_link` finds after an operation was queued** is what the operation made of the
links. -/
theorem Agrees.reads_push_eq {o : PendingOp} (hok : s.LinkOpOk o)
    (hfree : ∀ p, o.cleared = some p → s.entryKind p ≠ some .symlink) :
    (s.push o).reads = linkUpdate g.now o := by
  have hnow : ∀ q, s.pending.foldl linkStep s.storedLink (s.resolvePersistedPath q) = g.now q :=
    fun q => congrFun h.reads q
  have hsame : ∀ q p, o.cleared = some p →
      s.pending.foldl linkStep s.storedLink (s.resolvePersistedPath q)
        = Function.update g.now p none q := by
    intro q p hp
    rw [hnow, ← h.now_eq_none (hfree p hp), Function.update_eq_self]
  funext q
  rw [reads_push]
  cases o with
  | createSymlink p target time =>
    obtain ⟨hself, hothers⟩ := hok
    show (if p = s.resolvePersistedPath q then some target else _)
      = Function.update g.now p (some target) q
    rw [hnow]
    by_cases hq : q = p
    · subst hq
      rw [hself, if_pos rfl, Function.update_self]
    · rw [Function.update_of_ne hq]
      split
      · rename_i hpull
        rw [← h.reads, readLink_eq_ok.mp (hothers q hq hpull.symm)]
      · rfl
  | removeFile p =>
    obtain ⟨hself, hothers⟩ := hok
    show (if p = s.resolvePersistedPath q then none else _) = Function.update g.now p none q
    rw [hnow]
    by_cases hq : q = p
    · subst hq
      rw [Function.update_self]
      split
      · rfl
      · rename_i hpull
        exact h.now_eq_none fun hk => hpull (hself hk).symm
    · rw [Function.update_of_ne hq]
      split
      · rename_i hpull
        exact (h.now_eq_none (hothers q hq hpull.symm)).symm
      · rfl
  | rename src dst =>
    have hsrc := h.now_eq_none hok
    show s.pending.foldl linkStep s.storedLink
      (s.resolvePersistedPath (if dst = q then src else q)) = _
    rw [hnow]
    simp only [linkUpdate, hsrc]
    by_cases hself : src = dst
    · rw [if_pos hself]
      split
      · rename_i hq
        rw [hself, hq]
      · rfl
    · rw [if_neg hself]
      by_cases hqs : q = src
      · rw [hqs, Function.update_self, if_neg (Ne.symm hself), hsrc]
      · rw [Function.update_of_ne hqs]
        by_cases hqd : q = dst
        · rw [if_pos hqd.symm, hqd, Function.update_self, hsrc]
        · rw [if_neg (Ne.symm hqd), Function.update_of_ne hqd]
  | createFile p time mode => exact hsame q p rfl
  | createDir p time mode => exact hsame q p rfl
  | createHardLink p target time => exact hsame q p rfl
  | removeDir p => exact hsame q p rfl
  | write p offset data time => exact hnow q
  | setLen p len time => exact hnow q
  | setPermissions p mode time => exact hnow q

theorem Agrees.push {o : PendingOp} (hok : s.LinkOpOk o)
    (hfree : ∀ p, o.cleared = some p → s.entryKind p ≠ some .symlink) :
    (s.push o).Agrees { g with now := linkUpdate g.now o } :=
  ⟨h.reads_push_eq hok hfree, fun q => by
    rw [entryKind_push]
    refine kindStep_iff_linkUpdate h.kind (fun p hp => ?_) q
    subst hp
    exact h.now_eq_none hok, h.disk⟩

end Queued

/-! ## 4. Syncs and crashes -/

/-- The condition on `sync_dir d`: the queue fits the maps, no flushed operation overtakes one on
the same name, and no flushed rename is of or onto a link, stored or pending. -/
structure LinkSyncOk (s : FsState) (d : Path) : Prop where
  coherent : s.Coherent
  apart : kindOps.Apart (affectsDir d) s.pending
  moved : ∀ src dst, PendingOp.rename src dst ∈ s.dirFlush d → ∀ q, q = src ∨ q = dst →
    s.persistedSymlinks.contains q = false
      ∧ ∀ target time, PendingOp.createSymlink q target time ∉ s.pending

/-- Flushed operations make of the stored links what they ought to. -/
theorem foldl_linkUpdate {log : List PendingOp} : ∀ {m : Path → Option Path}
    {base : Path → Option EntryKind}, (∀ q, base q = some .symlink ↔ m q ≠ none) →
    kindOps.Valid base log →
    (∀ src dst, PendingOp.rename src dst ∈ log → ∀ q, q = src ∨ q = dst →
      m q = none ∧ ∀ target time, PendingOp.createSymlink q target time ∉ log) →
    log.foldl linkUpdate m = log.foldl linkStep m := by
  induction log with
  | nil => exact fun _ _ _ => rfl
  | cons op log ih =>
    intro m base hm hv hren
    have hok : kindOk base op := hv.1
    have hfree : ∀ p, op.cleared = some p → m p = none := by
      intro p hp
      by_contra hne
      have hk := (hm p).mpr hne
      cases op with
      | createFile q time mode =>
        cases hp
        rcases hok with h | h <;> cases hk.symm.trans h
      | createDir q time mode =>
        cases hp
        cases hk.symm.trans hok
      | createHardLink q target time =>
        cases hp
        cases hk.symm.trans hok.1
      | removeDir q =>
        cases hp
        cases hk.symm.trans hok
      | _ => cases hp
    have hmoved : ∀ src dst, op = .rename src dst → m src = none ∧ m dst = none := by
      rintro src dst rfl
      have hnone := fun q hq => (hren src dst List.mem_cons_self q hq).1
      exact ⟨hnone src (Or.inl rfl), hnone dst (Or.inr rfl)⟩
    have hstep := linkUpdate_eq_linkStep hfree hmoved
    have hkind : ∀ q, kindStep base op q = some .symlink ↔ linkStep m op q ≠ none := by
      intro q
      rw [← hstep]
      exact kindStep_iff_linkUpdate hm (fun p hp => (hmoved p p hp).1) q
    rw [List.foldl_cons, List.foldl_cons, hstep]
    refine ih hkind hv.2 fun src dst hmem q hq => ?_
    obtain ⟨hnone, hnot⟩ := hren src dst (List.mem_cons_of_mem _ hmem) q hq
    refine ⟨?_, fun target time ht => hnot target time (List.mem_cons_of_mem _ ht)⟩
    exact foldl_linkStep_none (l := [op])
      (fun target time ht => hnot target time (List.mem_singleton.mp ht ▸ List.mem_cons_self)) hnone

theorem storedLink_eq_none {s : FsState} {q : Path} :
    s.storedLink q = none ↔ s.persistedSymlinks.contains q = false := by
  rw [storedLink, Option.map_eq_none_iff, IndexMap.contains_eq_false]

/-- With disjoint maps the stored links are the names of that kind. -/
theorem MapsDisjoint.kind_iff_stored {s : FsState} (h : s.MapsDisjoint) (q : Path) :
    s.persistedKind q = some .symlink ↔ s.storedLink q ≠ none := by
  rw [h.kind_symlink, ne_eq, storedLink_eq_none, Bool.not_eq_false]

section SyncDir

variable {s : FsState} {d : Path} (h : s.LinkSyncOk d) (hex : s.dirExists d = true)
  (time : Duration)

include h hex

/-- **`sync_dir` stores the links it makes durable**, and `read_link` goes on finding the same. -/
theorem LinkSyncOk.stored : (s.syncDir d time).1.storedLink = (s.dirFlush d).foldl linkStep s.storedLink
    ∧ (s.dirFlush d).foldl linkUpdate s.storedLink = (s.dirFlush d).foldl linkStep s.storedLink := by
  obtain ⟨dirs, heq, -⟩ := syncDir_spec hex time
  have hvalid := (h.coherent.valid.partition _ _ h.apart).1
  have hmoved : ∀ src dst, PendingOp.rename src dst ∈ s.dirFlush d → ∀ q, q = src ∨ q = dst →
      s.storedLink q = none ∧ ∀ target time, PendingOp.createSymlink q target time ∉ s.dirFlush d := by
    intro src dst hm q hq
    obtain ⟨hno, hnot⟩ := h.moved src dst hm q hq
    exact ⟨storedLink_eq_none.mpr hno, fun t u ht => hnot t u (mem_dirFlush.mp ht).1⟩
  refine ⟨?_, foldl_linkUpdate h.coherent.disjoint.kind_iff_stored hvalid hmoved⟩
  have hsame : (s.syncDir d time).1.storedLink
      = ((s.dirFlush d).foldl applyOpToPersisted s).storedLink := by
    rw [heq]
    rfl
  rw [hsame]
  exact foldl_applyOp_storedLink h.coherent.disjoint hvalid
    fun src dst hm => hmoved src dst hm src (Or.inl rfl)

theorem LinkSyncOk.reads_eq : (s.syncDir d time).1.reads = s.reads := by
  obtain ⟨dirs, heq, -⟩ := syncDir_spec hex time
  have hp : (s.syncDir d time).1.pending = s.dirKeep d := by rw [heq]
  have hfold : (s.dirKeep d).foldl linkStep (s.syncDir d time).1.storedLink
      = s.pending.foldl linkStep s.storedLink := by
    rw [(h.stored hex time).1]
    exact (foldl_linkStep_partition (affectsDir d) h.apart s.storedLink).symm
  -- where a flushed rename leads from or to, there is nothing to find
  have hnone : ∀ src dst, PendingOp.rename src dst ∈ s.dirFlush d → ∀ q, q = src ∨ q = dst →
      s.pending.foldl linkStep s.storedLink q = none := by
    intro src dst hm q hq
    obtain ⟨hno, hnot⟩ := h.moved src dst hm q hq
    exact foldl_linkStep_none hnot (storedLink_eq_none.mpr hno)
  funext q
  rw [reads, reads, resolvePersistedPath_eq, resolvePersistedPath_eq, hp, hfold,
    pullAll_partition (affectsDir d) h.apart q]
  rcases pullAll_cases (s.dirFlush d) (pullAll (s.dirKeep d) q) with hsame | ⟨⟨src, h1⟩, dst, h2⟩
  · exact congrArg _ hsame.symm
  · exact (hnone _ _ h1 _ (Or.inr rfl)).trans (hnone _ _ h2 _ (Or.inl rfl)).symm

end SyncDir

/-- What is a link does not depend on which of the other kinds a name has. -/
theorem replay_symlink_congr {m m' : Path → Option EntryKind}
    (h : ∀ q, m q = some .symlink ↔ m' q = some .symlink) (log : List PendingOp) (q : Path) :
    kindOps.replay m log q = some .symlink ↔ kindOps.replay m' log q = some .symlink := by
  induction log using List.reverseRecOn generalizing q with
  | nil => exact h q
  | append_singleton log op ih =>
    rw [kindOps.replay_snoc, kindOps.replay_snoc, kindOps_step]
    generalize kindOps.replay m log = n at ih ⊢
    generalize kindOps.replay m' log = n' at ih ⊢
    cases op with
    | rename src dst =>
      simp only [kindStep]
      split
      · exact Iff.rfl
      · split
        · exact ih src
        · exact ih q
    | write p offset data time => exact ih q
    | setLen p len time => exact ih q
    | setPermissions p mode time => exact ih q
    | _ =>
      simp only [kindStep]
      split
      · exact Iff.rfl
      · exact ih q

/-- **`sync_file` makes up an inode** at most, and not where a link is stored. -/
theorem Agrees.flushFile {s : FsState} {g : Targets} (h : s.Agrees g) {p : Path}
    (hno : s.persistedKind p ≠ some .symlink) : (s.flushFile p).1.Agrees g := by
  cases hex : s.fileExists p with
  | false =>
    rw [flushFile_err hex]
    exact h
  | true =>
    obtain ⟨files, f, heq, hf, -, hother⟩ := flushFile_spec hex
    have hp := flushFile_pending hex
    have hlink : (s.flushFile p).1.storedLink = s.storedLink := by
      rw [heq]
      rfl
    have hkind : ∀ q, (s.flushFile p).1.persistedKind q = some .symlink
        ↔ s.persistedKind q = some .symlink := by
      intro q
      rw [heq]
      by_cases hq : q = p
      · subst hq
        have hfile : files.contains q = true := IndexMap.contains_iff.mpr ⟨f, hf⟩
        refine iff_of_false ?_ hno
        rw [persistedKind, if_pos hfile]
        rintro ⟨⟩
      · have hsame : files.contains q = s.persistedFiles.contains q := by
          rw [IndexMap.contains, IndexMap.contains, hother q hq]
        simp only [persistedKind, hsame]
    refine ⟨?_, fun q => ?_, hlink.trans h.disk⟩
    · rw [← h.reads]
      funext q
      rw [FsState.reads, FsState.reads, resolvePersistedPath_eq, resolvePersistedPath_eq, hp, hlink,
        pullAll_dropData, foldl_linkStep_dropData]
    · rw [← h.kind, entryKind_eq_replay, entryKind_eq_replay, hp, replay_dropData]
      exact replay_symlink_congr hkind s.pending q

/-- What a crash leaves. -/
theorem crash_storedLink (s : FsState) (surviving : Nat → Nat) (q : Path) :
    (s.crash surviving).storedLink q
      = if s.syncedEntries.contains q then s.storedLink q else none := by
  have hkeep : ∀ t : FsState, t.persistedSymlinks = s.persistedSymlinks →
      t.syncedEntries = s.syncedEntries →
      ((t.persistedSymlinks.retainKeys t.syncedEntries.contains).get? q).map (·.target)
        = if s.syncedEntries.contains q then s.storedLink q else none := by
    intro t h1 h2
    rw [h1, h2, IndexMap.get?_retainKeys]
    split <;> rfl
  unfold crash
  cases hb : s.blockSize with
  | none => exact hkeep s rfl rfl
  | some b =>
    exact hkeep _ (applyTornWrites_keeps persistedSymlinks (fun _ _ _ _ _ => rfl) s b surviving)
      (applyTornWrites_keeps syncedEntries (fun _ _ _ _ _ => rfl) s b surviving)

/-! ## 5. Runs -/

/-- The condition on each call. -/
def LinkCallOk (s : FsState) : FsOp → Prop
  | .syncFile p => s.fileExists p = true → s.persistedKind p ≠ some .symlink
  | .syncFileData p => s.fileExists p = true → s.persistedKind p ≠ some .symlink
  | .syncDir d _ => s.dirExists d = true → s.LinkSyncOk d
  | .crash _ => s.MapsDisjoint
  | .createFile p _ _ => s.entryKind p ≠ some .symlink
  | op => (s.apply op).2.toBool = true → ∀ o, queued op = some o → s.LinkOpOk o

/-- A call that succeeds makes something that is no link only where there is none. -/
theorem cleared_of_ok {s : FsState} {op : FsOp} {o : PendingOp} (hq : queued op = some o)
    (hok : (s.apply op).2.toBool = true) (hnew : ∀ p time mode, op ≠ .createFile p time mode)
    {p : Path} (hp : o.cleared = some p) : s.entryKind p ≠ some .symlink := by
  cases op with
  | mkdir p' time mode =>
    cases hq
    cases hp
    rcases s.mkdir_cases p time mode with ⟨e, he⟩ | ⟨-, -, hnone⟩
    · rw [apply, he] at hok
      cases hok
    · rw [hnone]
      rintro ⟨⟩
  | hardLink p' target time =>
    cases hq
    cases hp
    rcases s.createHardLink_cases p target time with ⟨e, he⟩ | ⟨-, -, hnone, -⟩
    · rw [apply, he] at hok
      cases hok
    · rw [hnone]
      rintro ⟨⟩
  | rmdir p' =>
    cases hq
    cases hp
    rcases s.rmdir_cases p with ⟨e, he⟩ | ⟨-, hdir, -⟩
    · rw [apply, he] at hok
      cases hok
    · rw [hdir]
      rintro ⟨⟩
  | createFile p' time mode => exact absurd rfl (hnew p' time mode)
  | _ =>
    first
      | (cases hq
         cases hp)
      | cases hq

/-- A call that is only queued. -/
theorem Agrees.queue {s : FsState} {g : Targets} (h : s.Agrees g) {op : FsOp} {o : PendingOp}
    (hq : queued op = some o) (hok : (s.apply op).2.toBool = true → s.LinkOpOk o)
    (hfree : (s.apply op).2.toBool = true → ∀ p, o.cleared = some p → s.entryKind p ≠ some .symlink) :
    (s.apply op).1.Agrees
      (if (s.apply op).2.toBool = false then g else { g with now := linkUpdate g.now o }) := by
  rcases s.apply_queued hq with ⟨heq, hno⟩ | ⟨⟨cache, heq⟩, hdone⟩
  · rw [heq]
    rcases hno with hfail | ⟨p, offset, time, rfl⟩
    · rw [if_pos hfail]
      exact h
    · rw [show ({ g with now := linkUpdate g.now (.write p offset [] time) } : Targets) = g from rfl,
        ite_self]
      exact h
  · have hres : (s.apply op).2.toBool = true := by rw [hdone]; rfl
    have hpush := h.push (hok hres) (hfree hres)
    rw [heq, hres, if_neg nofun]
    exact ⟨hpush.reads, hpush.kind, hpush.disk⟩

/-- **One call that meets the condition.** -/
theorem Agrees.apply {s : FsState} {g : Targets} (h : s.Agrees g) {op : FsOp}
    (hop : s.LinkCallOk op) : (s.apply op).1.Agrees (s.nextTargets g op) := by
  have hplain : ∀ o, queued op = some o →
      ((s.apply op).2.toBool = true → ∀ o, queued op = some o → s.LinkOpOk o) →
      (∀ p time mode, op ≠ .createFile p time mode) →
      (s.apply op).1.Agrees
        (if (s.apply op).2.toBool = false then g else { g with now := linkUpdate g.now o }) :=
    fun o hq hok hnew => h.queue hq (fun hres => hok hres o hq)
      fun hres _ hp => cleared_of_ok hq hres hnew hp
  have hflush : ∀ p, (s.fileExists p = true → s.persistedKind p ≠ some .symlink) →
      (s.flushFile p).1.Agrees g := by
    intro p hno
    cases hex : s.fileExists p with
    | false =>
      rw [flushFile_err hex]
      exact h
    | true => exact h.flushFile (hno hex)
  cases op with
  | syncFile p =>
    have hsame : s.nextTargets g (.syncFile p) = g := ite_self g
    rw [hsame]
    exact hflush p hop
  | syncFileData p =>
    have hsame : s.nextTargets g (.syncFileData p) = g := ite_self g
    rw [hsame]
    exact hflush p hop
  | syncDir d time =>
    cases hex : s.dirExists d with
    | false =>
      rw [nextTargets, FsState.apply, syncDir_err hex]
      exact h
    | true =>
      have hok := hop hex
      obtain ⟨dirs, heq, -⟩ := syncDir_spec hex time
      have hres : (s.apply (.syncDir d time)).2.toBool = true := by rw [FsState.apply, heq]; rfl
      obtain ⟨hstored, hshould⟩ := hok.stored hex time
      rw [nextTargets, if_neg (by rw [hres]; exact Bool.true_eq_false.mp)]
      refine ⟨(hok.reads_eq hex time).trans h.reads, fun q => ?_, ?_⟩
      · rw [FsState.apply, (syncDir_kind hok.coherent hok.apart time).1]
        exact h.kind q
      · rw [FsState.apply, hstored, ← hshould, h.disk]
  | crash surviving =>
    have hd : (s.crash surviving).MapsDisjoint := (crash_coherent hop surviving).disjoint
    have hkept : (s.crash surviving).storedLink
        = fun p => if s.syncedEntries.contains p then g.disk p else none := by
      funext q
      rw [crash_storedLink, h.disk]
    have hempty : (s.crash surviving).pending = [] := rfl
    refine ⟨hkept, fun q => ?_, hkept⟩
    rw [FsState.apply, entryKind_eq_replay, hempty]
    exact (hd.kind_iff_stored q).trans (by rw [hkept]; rfl)
  | createFile p time mode =>
    refine h.queue rfl (fun _ => trivial) fun _ q hq => ?_
    cases hq
    exact hop
  | mkdir p time mode => exact hplain _ rfl hop (by rintro _ _ _ ⟨⟩)
  | symlink p target time => exact hplain _ rfl hop (by rintro _ _ _ ⟨⟩)
  | hardLink p target time => exact hplain _ rfl hop (by rintro _ _ _ ⟨⟩)
  | writeFile p offset data time => exact hplain _ rfl hop (by rintro _ _ _ ⟨⟩)
  | setFileLen p len time => exact hplain _ rfl hop (by rintro _ _ _ ⟨⟩)
  | setPermissions p mode time => exact hplain _ rfl hop (by rintro _ _ _ ⟨⟩)
  | rename src dst => exact hplain _ rfl hop (by rintro _ _ _ ⟨⟩)
  | unlink p => exact hplain _ rfl hop (by rintro _ _ _ ⟨⟩)
  | rmdir p => exact hplain _ rfl hop (by rintro _ _ _ ⟨⟩)

theorem Agrees.run {ops : List FsOp} : ∀ {s : FsState} {g : Targets}, s.Agrees g →
    Along LinkCallOk s ops → (s.run ops).Agrees (s.targets g ops) := by
  induction ops with
  | nil => exact fun h _ => h
  | cons op ops ih => exact fun h hal => ih (h.apply hal.1) hal.2

theorem agrees_new (config : FsConfig) : (FsState.new config).Agrees .none := by
  refine ⟨rfl, fun q => ?_, rfl⟩
  refine iff_of_false (fun hk => ?_) fun hne => hne rfl
  have hlink := persistedKind_eq_some (show (FsState.new config).persistedKind q = _ from hk)
  cases hlink

/-- **`read_link` returns the current target.**  In every state that calls meeting their condition
lead to, `read_link` of a path answers with a target exactly if the path is a link there, and the
target is the one the link was given when it was made, wherever it was made. -/
theorem readLink_current (config : FsConfig) (ops : List FsOp)
    (hops : Along LinkCallOk (FsState.new config) ops) :
    ((FsState.new config).run ops).ReadsTargets ((FsState.new config).targets .none ops).now :=
  (Agrees.run (agrees_new config) hops).readsTargets

/-- A file is moved, and a link beside it is made, removed and made again. -/
def remadeLink : List FsOp :=
  [.createFile (.abs ["f"]) 0 0o644, .rename (.abs ["f"]) (.abs ["g"]),
    .symlink (.abs ["l"]) (.abs ["a"]) 0, .unlink (.abs ["l"]), .symlink (.abs ["l"]) (.abs ["b"]) 0]

theorem readLink_current_remade :
    Along LinkCallOk (FsState.new .default) remadeLink
      ∧ ((FsState.new .default).run remadeLink).readLink (.abs ["l"]) = .ok (.abs ["b"]) := by
  -- only `/g` is walked back
  have hother : ∀ (q : Path), (if Path.abs ["g"] = q then Path.abs ["f"] else q) = Path.abs ["l"] →
      q = .abs ["l"] := by
    intro q hq
    split at hq
    · exact absurd hq (by decide)
    · exact hq
  have hops : Along LinkCallOk (FsState.new .default) remadeLink := by
    refine ⟨?_, ?_, ?_, ?_, ?_, trivial⟩
    · show (FsState.new .default).entryKind (.abs ["f"]) ≠ some .symlink
      decide
    · rintro - o ho
      cases ho
      show ((FsState.new .default).createFileWithMode (.abs ["f"]) 0 0o644).entryKind (.abs ["f"])
        ≠ some .symlink
      decide
    · rintro - o ho
      cases ho
      exact ⟨by decide, fun q hne hq => absurd (hother q hq) hne⟩
    · rintro - o ho
      cases ho
      exact ⟨fun _ => by decide, fun q hne hq => absurd (hother q hq) hne⟩
    · rintro - o ho
      cases ho
      exact ⟨by decide, fun q hne hq => absurd (hother q hq) hne⟩
  exact ⟨hops, ((readLink_current .default remadeLink hops (.abs ["l"])).1 (.abs ["b"])).mpr (by decide)⟩

/-- **A renamed link answers under both names.** -/
theorem renamed_link_still_read :
    ¬ ((FsState.new .default).run [.symlink (.abs ["l"]) (.abs ["a"]) 0,
      .rename (.abs ["l"]) (.abs ["m"])]).ReadsTargets
        ((FsState.new .default).targets .none [.symlink (.abs ["l"]) (.abs ["a"]) 0,
          .rename (.abs ["l"]) (.abs ["m"])]).now := by
  intro h
  have hkind := (h (.abs ["l"])).2.mpr ⟨.abs ["a"], by rfl⟩
  exact absurd hkind (by decide)

end FsState

end Turmoil.Fs
