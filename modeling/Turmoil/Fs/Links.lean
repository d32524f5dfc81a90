/-
# Hard links

A pending hard link is followed by name: the content, and the link count, of a path with a pending
`CreateHardLink` are those of its target.  The recursion has no bound of its own, so it comes back
exactly if the names do not go in a circle.

Whether they do is decided when a link is queued.  A removal leaves the queued link where it is,
and only the first queued link of a name counts, so linking a name to something that leads back to
it closes a circle (`links_resolve_iff`).
-/
import Turmoil.Fs.Readers
import Turmoil.Fs.History

namespace Turmoil.Fs

namespace FsState

/-! ## 1. The link count -/

/-- `file_nlink` with a bound on its recursion depth. -/
def fileNlinkIn (s : FsState) : Nat → Path → Option Nat
  | 0, _ => none
  | fuel + 1, path =>
    match s.resolveHardlinkTarget path with
    | some target => s.fileNlinkIn fuel target
    | none =>
      let stored := ((s.persistedFiles.get? path).map (·.nlink)).getD 1
      some (s.pending.foldl (fun nlink op =>
        match op with
        | .createHardLink _ target _ => if target = path then nlink + 1 else nlink
        | _ => nlink) stored)

/-- The number of names of a file; `none` when the recursion of the source never returns. -/
def fileNlink (s : FsState) (path : Path) : Option Nat :=
  s.fileNlinkIn (s.pending.length + 1) path

/-! ## 2. Both recursions are one chase -/

theorem resolves_iff_stops (s : FsState) (p : Path) :
    (∃ fuel c, s.resolveContentPathIn fuel p = some c) ↔ Stops s.resolveHardlinkTarget p := by
  simp only [resolveContentPathIn_eq, Option.map_eq_some_iff]
  constructor
  · rintro ⟨fuel, c, y, hy, -⟩
    exact ⟨fuel, y, hy⟩
  · rintro ⟨fuel, y, hy⟩
    exact ⟨fuel, _, y, hy, rfl⟩

/-- The count of a name that no pending link stands at. -/
def nlinkAt (s : FsState) (path : Path) : Nat :=
  s.pending.foldl (fun nlink op =>
    match op with
    | .createHardLink _ target _ => if target = path then nlink + 1 else nlink
    | _ => nlink) (((s.persistedFiles.get? path).map (·.nlink)).getD 1)

theorem fileNlinkIn_eq (s : FsState) : ∀ (fuel : Nat) (p : Path),
    s.fileNlinkIn fuel p = (chase s.resolveHardlinkTarget fuel p).map s.nlinkAt
  | 0, _ => rfl
  | fuel + 1, p => by
    cases h : s.resolveHardlinkTarget p with
    | none =>
      rw [fileNlinkIn, h, chase_none h]
      rfl
    | some t =>
      rw [fileNlinkIn, h, chase_some h]
      exact fileNlinkIn_eq s fuel t

theorem counts_of_stops {s : FsState} {p : Path} (h : Stops s.resolveHardlinkTarget p) :
    ∃ fuel n, s.fileNlinkIn fuel p = some n := by
  obtain ⟨fuel, y, hy⟩ := h
  exact ⟨fuel, s.nlinkAt y, by rw [fileNlinkIn_eq, hy]; rfl⟩

/-- From every path both recursions come back, and no path leads to itself. -/
structure LinksResolve (s : FsState) : Prop where
  content : ∀ p, ∃ fuel c, s.resolveContentPathIn fuel p = some c
  nlink : ∀ p, ∃ fuel n, s.fileNlinkIn fuel p = some n
  acyclic : ∀ p, ¬ Relation.TransGen (Leads s.resolveHardlinkTarget) p p

theorem linksResolve_iff {s : FsState} :
    s.LinksResolve ↔ ∀ p, Stops s.resolveHardlinkTarget p := by
  constructor
  · exact fun h p => (s.resolves_iff_stops p).mp (h.content p)
  · exact fun h => ⟨fun p => (s.resolves_iff_stops p).mpr (h p), fun p => counts_of_stops (h p),
      fun p => (h p).not_cyclic⟩

/-! ## 3. What a call does to the links -/

theorem resolveHardlinkTarget_push (s : FsState) (o : PendingOp) (p : Path) :
    (s.push o).resolveHardlinkTarget p = (s.resolveHardlinkTarget p).or (hardLinkAt p o) := by
  unfold resolveHardlinkTarget push
  rw [List.findSome?_append, List.findSome?_singleton]

/-- A sync of a directory keeps the links elsewhere. -/
theorem resolveHardlinkTarget_dirKeep_of_ne {s t : FsState} {d p : Path}
    (h : t.pending = s.dirKeep d) (hp : p.parent ≠ some d) :
    t.resolveHardlinkTarget p = s.resolveHardlinkTarget p := by
  unfold resolveHardlinkTarget
  rw [h, dirKeep]
  induction s.pending with
  | nil => rfl
  | cons op log ih =>
    rw [List.filter_cons]
    split
    · rw [List.findSome?_cons, List.findSome?_cons, ih]
    · rename_i hop
      have hnone : hardLinkAt p op = none := by
        cases op with
        | createHardLink q target time =>
          refine if_neg fun hq => hop ?_
          subst hq
          simp [affectsDir, hp]
        | _ => rfl
      rw [List.findSome?_cons, hnone, ih]

/-- It forgets the links in the directory, all of a name at once. -/
theorem resolveHardlinkTarget_dirKeep {s t : FsState} {d : Path} (h : t.pending = s.dirKeep d)
    (p : Path) : t.resolveHardlinkTarget p = none
      ∨ t.resolveHardlinkTarget p = s.resolveHardlinkTarget p := by
  by_cases hp : p.parent = some d
  · left
    unfold resolveHardlinkTarget
    rw [h, dirKeep]
    refine List.findSome?_eq_none_iff.mpr fun op hop => ?_
    have hkeep := (List.mem_filter.mp hop).2
    cases op with
    | createHardLink q target time =>
      refine if_neg fun hq => ?_
      subst hq
      simp [affectsDir, hp] at hkeep
    | _ => rfl
  · exact Or.inr (resolveHardlinkTarget_dirKeep_of_ne h hp)

theorem resolveHardlinkTarget_push_of_none (s : FsState) {o : PendingOp}
    (ho : ∀ p, hardLinkAt p o = none) :
    (s.push o).resolveHardlinkTarget = s.resolveHardlinkTarget := by
  funext p
  rw [resolveHardlinkTarget_push, ho, Option.or_none]

theorem flushFile_resolveHardlinkTarget (s : FsState) (p : Path) :
    (s.flushFile p).1.resolveHardlinkTarget = s.resolveHardlinkTarget := by
  cases hex : s.fileExists p with
  | false => rw [flushFile_err hex]
  | true =>
    obtain ⟨files, f, heq, -⟩ := flushFile_spec hex
    rw [heq]
    refine (resolveHardlinkTarget_filter (k := fun op => !isDataOf p op) rfl
      fun op _ hk q target time heq => ?_).symm
    rw [heq] at hk
    cases hk

/-- Linking `path` to `target` closes no circle: the first link of the name is queued already, or
`target` does not lead to it. -/
def ClosesNoCircle (s : FsState) (path target : Path) : Prop :=
  s.resolveHardlinkTarget path ≠ none
    ∨ ¬ Relation.ReflTransGen (Leads s.resolveHardlinkTarget) target path

/-- The condition on a call: a link that is queued closes no circle. -/
def LinkSafe (s : FsState) : FsOp → Prop
  | .hardLink path target time =>
    (s.createHardLink path target time).isOk = true → s.ClosesNoCircle path target
  | _ => True

theorem resolveHardlinkTarget_push_link (s : FsState) {path : Path}
    (hp : s.resolveHardlinkTarget path = none) (target : Path) (time : Duration) :
    (s.push (.createHardLink path target time)).resolveHardlinkTarget
      = Function.update s.resolveHardlinkTarget path (some target) := by
  funext q
  rw [resolveHardlinkTarget_push]
  by_cases hq : path = q
  · subst hq
    rw [hp, Function.update_self, hardLinkAt, if_pos rfl]
    rfl
  · rw [hardLinkAt, if_neg hq, Option.or_none, Function.update_of_ne (Ne.symm hq)]

/-- A second link of the same name changes nothing. -/
theorem resolveHardlinkTarget_push_again (s : FsState) {path target : Path} {time : Duration}
    (hp : s.resolveHardlinkTarget path ≠ none) :
    (s.push (.createHardLink path target time)).resolveHardlinkTarget
      = s.resolveHardlinkTarget := by
  funext q
  rw [resolveHardlinkTarget_push]
  by_cases hq : path = q
  · subst hq
    obtain ⟨t, ht⟩ := Option.ne_none_iff_exists'.mp hp
    rw [ht]
    rfl
  · rw [hardLinkAt, if_neg hq, Option.or_none]

theorem LinksResolve.push_link {s : FsState} (h : s.LinksResolve) (path target : Path)
    (time : Duration) :
    (s.push (.createHardLink path target time)).LinksResolve ↔ s.ClosesNoCircle path target := by
  rw [linksResolve_iff] at h
  rw [linksResolve_iff, ClosesNoCircle]
  cases hp : s.resolveHardlinkTarget path with
  | some target' =>
    rw [s.resolveHardlinkTarget_push_again (by rw [hp]; exact nofun)]
    exact ⟨fun _ => Or.inl nofun, fun _ => h⟩
  | none =>
    rw [s.resolveHardlinkTarget_push_link hp target time, stops_update_iff h hp]
    exact ⟨Or.inr, fun hor => hor.resolve_left fun hne => hne rfl⟩

/-- **One call.**  From a state in which the recursions come back, a call leads to such a state
exactly if it closes no circle. -/
theorem LinksResolve.apply_iff {s : FsState} (h : s.LinksResolve) (op : FsOp) :
    (s.apply op).1.LinksResolve ↔ s.LinkSafe op := by
  have hkeeps : ∀ {t : FsState}, (∀ p, t.resolveHardlinkTarget p = none
      ∨ t.resolveHardlinkTarget p = s.resolveHardlinkTarget p) → t.LinksResolve := fun ht =>
    linksResolve_iff.mpr fun p => (linksResolve_iff.mp h p).restrict ht
  have hflush : ∀ p, (s.flushFile p).1.LinksResolve :=
    fun p => hkeeps fun q => Or.inr (congrFun (s.flushFile_resolveHardlinkTarget p) q)
  have hqueue : ∀ o, queued op = some o → (∀ p, hardLinkAt p o = none) →
      (s.apply op).1.LinksResolve := by
    intro o ho hlink
    rcases s.apply_queued ho with ⟨heq, -⟩ | ⟨⟨cache, heq⟩, -⟩
    · rw [heq]
      exact h
    · refine hkeeps fun p => Or.inr ?_
      rw [heq]
      show (s.push o).resolveHardlinkTarget p = _
      rw [resolveHardlinkTarget_push, hlink, Option.or_none]
  cases op with
  | hardLink path target time =>
    rw [LinkSafe, apply]
    rcases s.createHardLink_cases path target time with ⟨e, he⟩ | ⟨he, -⟩
    · rw [he]
      exact ⟨fun _ hok => absurd hok Bool.false_ne_true, fun _ => h⟩
    · rw [he, h.push_link path target time]
      exact ⟨fun hno _ => hno, fun hno => hno rfl⟩
  | syncFile p => exact iff_of_true (hflush p) trivial
  | syncFileData p => exact iff_of_true (hflush p) trivial
  | syncDir d time =>
    refine iff_of_true ?_ trivial
    cases hex : s.dirExists d with
    | false =>
      simp only [apply, syncDir_err hex]
      exact h
    | true =>
      obtain ⟨dirs, heq, -⟩ := syncDir_spec hex time
      refine hkeeps (resolveHardlinkTarget_dirKeep (d := d) ?_)
      simp only [apply, heq]
  | crash surviving =>
    refine iff_of_true (hkeeps fun p => Or.inl ?_) trivial
    have hpending : (s.apply (.crash surviving)).1.pending = [] := rfl
    rw [resolveHardlinkTarget, hpending]
    rfl
  | _ => exact iff_of_true (hqueue _ rfl fun _ => rfl) trivial

theorem linksResolve_new (config : FsConfig) : (FsState.new config).LinksResolve :=
  linksResolve_iff.mpr fun _ => stops_of_none rfl

/-- **Hard-link resolution terminates** in every state of a run exactly if no call of the run
queues a link that closes a circle. -/
theorem links_resolve_iff (config : FsConfig) (ops : List FsOp) :
    (∀ pre, pre <+: ops → ((FsState.new config).run pre).LinksResolve)
      ↔ (FsState.new config).Along LinkSafe ops :=
  along_iff (fun _ op h => h.apply_iff op) ops (linksResolve_new config)

/-- `/b` is linked to `/a`, `/a` is unlinked and linked to `/b`. -/
def circularHistory : List FsOp :=
  [.createFile (.abs ["a"]) 0 0o644, .hardLink (.abs ["b"]) (.abs ["a"]) 1, .unlink (.abs ["a"]),
    .hardLink (.abs ["a"]) (.abs ["b"]) 2]

/-- **A circle.**  The recursion from `/a` comes back for no bound on its depth. -/
theorem links_in_a_circle :
    ¬ ((FsState.new .default).run circularHistory).LinksResolve
      ∧ ∀ fuel, ((FsState.new .default).run circularHistory).resolveContentPathIn fuel (.abs ["a"])
        = none := by
  have hab : ((FsState.new .default).run circularHistory).resolveHardlinkTarget (.abs ["a"])
      = some (.abs ["b"]) := by decide
  have hba : ((FsState.new .default).run circularHistory).resolveHardlinkTarget (.abs ["b"])
      = some (.abs ["a"]) := by decide
  have hnever : ∀ fuel,
      ((FsState.new .default).run circularHistory).resolveContentPathIn fuel (.abs ["a"]) = none
      ∧ ((FsState.new .default).run circularHistory).resolveContentPathIn fuel (.abs ["b"])
        = none := by
    intro fuel
    induction fuel with
    | zero => exact ⟨rfl, rfl⟩
    | succ fuel ih => exact ⟨by rw [resolveContentPathIn, hab]; exact ih.2,
        by rw [resolveContentPathIn, hba]; exact ih.1⟩
  exact ⟨fun h => h.acyclic _ (.tail (.single hab) hba), fun fuel => (hnever fuel).1⟩

end FsState

end Turmoil.Fs
