/-
# The readers as folds over the queue

Besides `entry_kind` four readers walk the pending queue: `resolve_persisted_path` (backwards
over renames), `path_renamed_to` (forwards over renames), `resolve_content_path` (through hard
links, then backwards over renames) and `read_link`.  Each is brought into a form in which
pulling operations to the front of the queue can be followed: a fold that commutes with
operations on other names, or a chase along hard links whose fuel does not matter.

A listing is different: `dir_entries` looks at the persisted names and at pending creations and
renames, but not at pending hard links.  `mem_dirEntries` says exactly which names it shows.
-/
import Mathlib.Data.List.Dedup
import Turmoil.Lib.Chase
import Turmoil.Fs.Sync

namespace Turmoil.Fs

namespace FsState

/-! ## 1. Renames, backwards -/

/-- One step backwards. -/
def pullPath (op : PendingOp) (q : Path) : Path :=
  match op with
  | .rename src dst => if dst = q then src else q
  | _ => q

/-- The backward walk over a log. -/
def pullAll (log : List PendingOp) (q : Path) : Path := log.foldr pullPath q

theorem resolvePersistedPath_eq (s : FsState) : s.resolvePersistedPath = pullAll s.pending := by
  funext q
  rfl

/-- The walk as a fold that composes the steps. -/
theorem pullAll_eq_foldl (log : List PendingOp) (m : Path → Path) (q : Path) :
    log.foldl (fun m op => fun q => m (pullPath op q)) m q = m (pullAll log q) := by
  induction log generalizing m with
  | nil => rfl
  | cons op log ih => rw [List.foldl_cons, ih]; rfl

/-- Steps over different names commute. -/
theorem pullPath_comm {f g : PendingOp} (h : ∀ k ∈ f.names, k ∉ g.names) (q : Path) :
    pullPath g (pullPath f q) = pullPath f (pullPath g q) := by
  cases f with
  | rename a b =>
    cases g with
    | rename c d =>
      have ha := h a (by simp [PendingOp.names])
      have hb := h b (by simp [PendingOp.names])
      simp only [PendingOp.names, List.mem_cons, List.not_mem_nil, or_false, not_or] at ha hb
      simp only [pullPath]
      grind
    | _ => rfl
  | _ => rfl

/-- The walk over a log is the walk over what is pulled to the front, after the walk over the
rest. -/
theorem pullAll_partition (p : PendingOp → Bool) {log : List PendingOp}
    (hap : kindOps.Apart p log) (q : Path) :
    pullAll log q = pullAll (log.filter p) (pullAll (log.filter fun op => !p op) q) := by
  have hfold := @foldl_partition _ _ (fun (m : Path → Path) op => fun q => m (pullPath op q)) p _
    (hap.imp fun {g f} h hg hf m => by
      funext q
      exact congrArg m (pullPath_comm (h hg hf) q)) id
  have := congrFun hfold q
  rw [pullAll_eq_foldl, pullAll_eq_foldl, pullAll_eq_foldl] at this
  exact this

/-- A walk ends where it began, or at the source of a rename, having begun at a target. -/
theorem pullAll_cases (log : List PendingOp) (q : Path) :
    pullAll log q = q
      ∨ (∃ src, PendingOp.rename src q ∈ log) ∧ ∃ dst, PendingOp.rename (pullAll log q) dst ∈ log := by
  induction log with
  | nil => exact Or.inl rfl
  | cons op log ih =>
    have hcons : pullAll (op :: log) q = pullPath op (pullAll log q) := rfl
    have hmem : ∀ o, o ∈ log → o ∈ op :: log := fun o ho => List.mem_cons_of_mem _ ho
    rcases ih with ih | ⟨⟨src, hsrc⟩, dst, hdst⟩
    · cases op with
      | rename a b =>
        by_cases hb : b = q
        · right
          have : pullAll (.rename a b :: log) q = a := by rw [hcons, ih]; simp [pullPath, hb]
          rw [this]
          exact ⟨⟨a, by simp [hb]⟩, b, by simp⟩
        · left
          rw [hcons, ih]
          simp [pullPath, hb]
      | _ => exact Or.inl (hcons.trans ih)
    · right
      refine ⟨⟨src, hmem _ hsrc⟩, ?_⟩
      cases op with
      | rename a b =>
        by_cases hb : b = pullAll log q
        · have : pullAll (.rename a b :: log) q = a := by rw [hcons]; simp [pullPath, hb]
          rw [this]
          exact ⟨b, by simp⟩
        · have : pullAll (.rename a b :: log) q = pullAll log q := by
            rw [hcons]
            simp [pullPath, hb]
          rw [this]
          exact ⟨dst, hmem _ hdst⟩
      | _ => exact ⟨dst, hmem _ hdst⟩

/-- A walk that ends at a path nothing was moved away from never moved. -/
theorem pullAll_eq_of_no_source {log : List PendingOp} {p : Path}
    (h : ∀ dst, PendingOp.rename p dst ∉ log) {q : Path} (hq : pullAll log q = p) :
    q = p ∧ ∀ src, PendingOp.rename src p ∉ log := by
  induction log with
  | nil => exact ⟨hq, fun src hs => by cases hs⟩
  | cons op log ih =>
    have htail : ∀ dst, PendingOp.rename p dst ∉ log :=
      fun dst hd => h dst (List.mem_cons_of_mem _ hd)
    have hcons : pullPath op (pullAll log q) = p := hq
    have hstay : pullAll log q = p ∧ ∀ src, op ≠ .rename src p := by
      cases op with
      | rename a b =>
        simp only [pullPath] at hcons
        split at hcons
        · subst hcons
          exact absurd List.mem_cons_self (h b)
        · rename_i hb
          exact ⟨hcons, fun src e => by
            cases e
            exact hb hcons.symm⟩
      | _ => exact ⟨hcons, fun src e => by cases e⟩
    obtain ⟨h1, h2⟩ := ih htail hstay.1
    refine ⟨h1, fun src hs => ?_⟩
    rcases List.mem_cons.mp hs with hs | hs
    · exact hstay.2 src hs.symm
    · exact h2 src hs

/-! ## 2. Renames, forwards -/

/-- One step forwards. -/
def pushPath (q : Path) (op : PendingOp) : Path :=
  match op with
  | .rename src dst => if src = q then dst else q
  | _ => q

def pushAll (log : List PendingOp) (q : Path) : Path := log.foldl pushPath q

theorem pathRenamedTo_eq (s : FsState) (src dst : Path) :
    s.pathRenamedTo src dst = decide (pushAll s.pending src = dst) := by
  rfl

theorem pushPath_comm {f g : PendingOp} (h : ∀ k ∈ f.names, k ∉ g.names) (q : Path) :
    pushPath (pushPath q g) f = pushPath (pushPath q f) g := by
  cases f with
  | rename a b =>
    cases g with
    | rename c d =>
      have ha := h a (by simp [PendingOp.names])
      have hb := h b (by simp [PendingOp.names])
      simp only [PendingOp.names, List.mem_cons, List.not_mem_nil, or_false, not_or] at ha hb
      simp only [pushPath]
      grind
    | _ => rfl
  | _ => rfl

theorem pushAll_partition (p : PendingOp → Bool) {log : List PendingOp}
    (hap : kindOps.Apart p log) (q : Path) :
    pushAll log q = pushAll (log.filter fun op => !p op) (pushAll (log.filter p) q) :=
  foldl_partition p (hap.imp fun h hg hf b => pushPath_comm (h hg hf) b) q

/-- A path that nothing was moved away from stays. -/
theorem pushAll_of_no_source {log : List PendingOp} {q : Path}
    (h : ∀ dst, PendingOp.rename q dst ∉ log) : pushAll log q = q := by
  induction log with
  | nil => rfl
  | cons op log ih =>
    have hstep : pushPath q op = q := by
      cases op with
      | rename a b =>
        have : ¬ a = q := fun e => h b (by simp [e])
        simp [pushPath, this]
      | _ => rfl
    rw [pushAll, List.foldl_cons, hstep]
    exact ih (fun dst hd => h dst (List.mem_cons_of_mem _ hd))

/-- A path that nothing was moved onto is reached from itself only. -/
theorem pushAll_eq_of_no_target {log : List PendingOp} {p : Path}
    (h : ∀ src, PendingOp.rename src p ∉ log) : ∀ {q : Path}, pushAll log q = p → q = p := by
  induction log with
  | nil => exact fun hq => hq
  | cons op log ih =>
    intro q hq
    have hstep := ih (fun src hs => h src (List.mem_cons_of_mem _ hs)) (q := pushPath q op) hq
    cases op with
    | rename a b =>
      simp only [pushPath] at hstep
      split at hstep
      · subst hstep
        exact absurd List.mem_cons_self (h a)
      · exact hstep
    | _ => exact hstep

/-- Where nothing was moved onto `p`, the data at `p` is what was recorded under it. -/
theorem dataAt_eq_isDataOf {s : FsState} {p : Path}
    (hdst : ∀ src, PendingOp.rename src p ∉ s.pending) :
    s.dataAt p = s.pending.filter (isDataOf p) := by
  have haddr : ∀ q, s.addressesContent q p = decide (q = p) := by
    intro q
    rw [addressesContent, pathRenamedTo_eq]
    by_cases hq : q = p
    · simp [hq]
    · have : pushAll s.pending q ≠ p := fun e => hq (pushAll_eq_of_no_target hdst e)
      simp [hq, this]
  apply List.filter_congr
  intro op _
  cases op <;> simp [isDataAt, isDataOf, haddr]

/-! ## 3. Hard links -/

/-- Following hard links is a chase, and the backward walk comes after it. -/
theorem resolveContentPathIn_eq (s : FsState) : ∀ (fuel : Nat) (p : Path),
    s.resolveContentPathIn fuel p
      = (chase s.resolveHardlinkTarget fuel p).map s.resolvePersistedPath
  | 0, _ => rfl
  | fuel + 1, p => by
    cases h : s.resolveHardlinkTarget p with
    | none => simp [resolveContentPathIn, h, chase]
    | some t => simp [resolveContentPathIn, h, chase, resolveContentPathIn_eq s fuel t]

/-- The paths with a pending hard link. -/
def linkedPaths (s : FsState) : List Path :=
  s.pending.filterMap fun op =>
    match op with
    | .createHardLink p _ _ => some p
    | _ => none

theorem mem_linkedPaths {s : FsState} {p : Path} (h : s.resolveHardlinkTarget p ≠ none) :
    p ∈ s.linkedPaths := by
  obtain ⟨t, ht⟩ := Option.ne_none_iff_exists'.mp h
  obtain ⟨op, hop, hsome⟩ := List.exists_of_findSome?_eq_some ht
  cases op with
  | createHardLink q target time =>
    simp only [hardLinkAt, Option.ite_none_right_eq_some] at hsome
    exact List.mem_filterMap.mpr ⟨_, hop, by simp [hsome.1]⟩
  | _ => cases hsome

/-- A path without a pending hard link resolves to its persisted name. -/
theorem resolveContentPath_of_no_link {s : FsState} {p : Path}
    (h : ∀ target time, PendingOp.createHardLink p target time ∉ s.pending) :
    s.resolveContentPath p = some (pullAll s.pending p) := by
  have hnone : s.resolveHardlinkTarget p = none := by
    by_contra hc
    obtain ⟨op, hop, hsome⟩ := List.mem_filterMap.mp (mem_linkedPaths hc)
    cases op with
    | createHardLink q target time =>
      cases hsome
      exact h target time hop
    | _ => cases hsome
  rw [resolveContentPath, resolveContentPathIn_eq, chase_none hnone, resolvePersistedPath_eq]
  rfl

/-- More fuel than there are pending operations is as good as one for each link. -/
theorem chase_linked (s : FsState) {n : Nat} (hn : s.pending.length < n) (p : Path) :
    chase s.resolveHardlinkTarget n p
      = chase s.resolveHardlinkTarget (s.linkedPaths.length + 1) p := by
  have hle : s.linkedPaths.length ≤ s.pending.length := List.length_filterMap_le _ _
  exact chase_fuel (fun x hx => mem_linkedPaths hx) (by omega) p

/-- **Two states with the same hard links follow them to the same end.** -/
theorem chase_congr {s s' : FsState} (h : s.resolveHardlinkTarget = s'.resolveHardlinkTarget)
    (hlen : s'.pending.length ≤ s.pending.length) (p : Path) :
    chase s.resolveHardlinkTarget (s.pending.length + 1) p
      = chase s'.resolveHardlinkTarget (s'.pending.length + 1) p := by
  rw [h, s'.chase_linked (Nat.lt_succ_of_le hlen), s'.chase_linked (Nat.lt_succ_self _)]

/-- Content paths depend on the queue only. -/
theorem resolveContentPath_congr {s s' : FsState} (h : s'.pending = s.pending) (p : Path) :
    s'.resolveContentPath p = s.resolveContentPath p := by
  have hlinks : s'.resolveHardlinkTarget = s.resolveHardlinkTarget := by
    funext q
    rw [resolveHardlinkTarget, resolveHardlinkTarget, h]
  have hwalk : s'.resolvePersistedPath = s.resolvePersistedPath := by
    funext q
    rw [resolvePersistedPath, resolvePersistedPath, h]
  rw [resolveContentPath, resolveContentPath, resolveContentPathIn_eq, resolveContentPathIn_eq,
    hlinks, hwalk, h]

/-- The target of a hard link does not depend on operations that are not hard links. -/
theorem resolveHardlinkTarget_filter {s s' : FsState} {k : PendingOp → Bool}
    (hs' : s'.pending = s.pending.filter k)
    (hk : ∀ op ∈ s.pending, k op = false → ∀ p target time, op ≠ .createHardLink p target time) :
    s.resolveHardlinkTarget = s'.resolveHardlinkTarget := by
  funext p
  unfold resolveHardlinkTarget
  rw [hs']
  generalize s.pending = log at hk
  induction log with
  | nil => rfl
  | cons op log ih =>
    have ih := ih fun o ho => hk o (List.mem_cons_of_mem _ ho)
    have hop := hk op List.mem_cons_self
    cases hkop : k op with
    | true => rw [List.filter_cons_of_pos hkop, List.findSome?_cons, List.findSome?_cons, ih]
    | false =>
      rw [List.filter_cons_of_neg (by simp [hkop]), ← ih, List.findSome?_cons]
      cases op with
      | createHardLink q target time => exact absurd rfl (hop hkop q target time)
      | _ => rfl

/-! ## 4. Symbolic links -/

/-- The targets after one operation. -/
def linkStep (m : Path → Option Path) (op : PendingOp) (q : Path) : Option Path :=
  match op with
  | .createSymlink p target _ => if p = q then some target else m q
  | .removeFile p => if p = q then none else m q
  | _ => m q

/-- The targets stored in the persisted map. -/
def storedLink (s : FsState) (q : Path) : Option Path := (s.persistedSymlinks.get? q).map (·.target)

theorem readLinkFrom_reverse (m : Path → Option Path) (q : Path) (log : List PendingOp) :
    readLinkFrom (m q) log.reverse q = log.foldl linkStep m q := by
  induction log using List.reverseRecOn with
  | nil => rfl
  | append_singleton log op ih =>
    rw [List.reverse_append, List.reverse_singleton, List.singleton_append, List.foldl_append,
      List.foldl_cons, List.foldl_nil]
    cases op <;> simp only [readLinkFrom, linkStep, ih]

/-- `read_link` looks up the replayed targets at the persisted name. -/
theorem readLink_eq (s : FsState) (q : Path) :
    s.readLink q = match s.pending.foldl linkStep s.storedLink (pullAll s.pending q) with
      | some target => .ok target
      | none => .error .noSuchFile := by
  unfold readLink
  simp only [resolvePersistedPath_eq]
  rw [← readLinkFrom_reverse s.storedLink]
  rfl

theorem linkStep_comm {f g : PendingOp} (h : ∀ k ∈ f.names, k ∉ g.names)
    (m : Path → Option Path) : linkStep (linkStep m g) f = linkStep (linkStep m f) g := by
  funext q
  cases f <;> cases g <;> simp only [linkStep] <;>
    simp only [PendingOp.names, List.mem_cons, List.not_mem_nil, or_false, forall_eq] at h <;>
    grind

theorem foldl_linkStep_partition (p : PendingOp → Bool) {log : List PendingOp}
    (hap : kindOps.Apart p log) (m : Path → Option Path) :
    log.foldl linkStep m
      = (log.filter fun op => !p op).foldl linkStep ((log.filter p).foldl linkStep m) :=
  foldl_partition p (hap.imp fun h hg hf b => linkStep_comm (h hg hf) b) m

/-- Where no symlink is stored or created, none is found. -/
theorem foldl_linkStep_none {q : Path} {l : List PendingOp}
    (h : ∀ target time, PendingOp.createSymlink q target time ∉ l) :
    ∀ {m : Path → Option Path}, m q = none → l.foldl linkStep m q = none := by
  induction l with
  | nil => exact fun hm => hm
  | cons op l ih =>
    intro m hm
    refine ih (fun t time ht => h t time (List.mem_cons_of_mem _ ht)) ?_
    cases op with
    | createSymlink p target time =>
      have : ¬ p = q := fun e => h target time (by simp [e])
      simp [linkStep, this, hm]
    | removeFile p =>
      simp only [linkStep]
      split
      · rfl
      · exact hm
    | _ => exact hm

/-! ## 5. Listings -/

/-- Does a listing take the name `x`, of kind `k`, from this pending operation?  A pending hard
link is not looked at. -/
def listsName (k : EntryKind) (x : Path) : PendingOp → Prop
  | .createFile p _ _ => k = .file ∧ p = x
  | .createDir p _ _ => k = .directory ∧ p = x
  | .createSymlink p _ _ => k = .symlink ∧ p = x
  | .rename _ dst => dst = x
  | _ => False

theorem names_of_listsName {k : EntryKind} {x : Path} {op : PendingOp} (h : listsName k x op) :
    x ∈ op.names := by
  cases op <;> simp_all [listsName, PendingOp.names]

theorem not_isDataOf_of_listsName {k : EntryKind} {x p : Path} {op : PendingOp}
    (h : listsName k x op) : isDataOf p op = false := by
  cases op <;> simp_all [listsName, isDataOf]

/-- Is the path in the persisted map of the kind? -/
def persistedHas (s : FsState) : EntryKind → Path → Bool
  | .file, x => s.persistedFiles.contains x
  | .directory, x => s.persistedDirs.contains x
  | .symlink, x => s.persistedSymlinks.contains x

theorem MapsDisjoint.persistedHas_iff {s : FsState} (h : s.MapsDisjoint) {k : EntryKind}
    {x : Path} : s.persistedHas k x = true ↔ s.persistedKind x = some k := by
  cases k with
  | file => exact persistedKind_eq_file.symm
  | directory => exact h.kind_directory.symm
  | symlink => exact h.kind_symlink.symm

/-- The names a listing shows: those with a kind that a persisted map or a listed operation
accounts for. -/
def Listed (s : FsState) (x : Path) : Prop :=
  ∃ k, s.entryKind x = some k ∧ (s.persistedHas k x = true ∨ ∃ op ∈ s.pending, listsName k x op)

/-- **What `dir_entries` shows.** -/
theorem mem_dirEntries {s : FsState} {d x : Path} :
    x ∈ s.dirEntries d ↔ x.parent = some d ∧ s.Listed x := by
  have hkeys : ∀ {ν : Type} (m : IndexMap Path ν), x ∈ m.keys ↔ m.contains x = true :=
    fun m => IndexMap.mem_keys.trans IndexMap.contains_iff.symm
  rw [dirEntries, List.mem_dedup, listedNames]
  simp only [List.mem_append, List.mem_filter, hkeys, List.mem_filterMap, Bool.and_eq_true,
    decide_eq_true_eq, fileExists_iff, dirExists_iff, symlinkExists_iff]
  constructor
  · rintro (((⟨h1, h2, h3⟩ | ⟨h1, h2, h3⟩) | ⟨h1, h2, h3⟩) | ⟨op, hop, hsome⟩)
    · exact ⟨h2, .file, h3, Or.inl h1⟩
    · exact ⟨h2, .directory, h3, Or.inl h1⟩
    · exact ⟨h2, .symlink, h3, Or.inl h1⟩
    · cases op with
      | createFile p time mode =>
        simp only [Option.ite_none_right_eq_some, Option.some.injEq] at hsome
        obtain ⟨⟨h1, h2⟩, rfl⟩ := hsome
        exact ⟨h1, .file, h2, Or.inr ⟨_, hop, rfl, rfl⟩⟩
      | createDir p time mode =>
        simp only [Option.ite_none_right_eq_some, Option.some.injEq] at hsome
        obtain ⟨⟨h1, h2⟩, rfl⟩ := hsome
        exact ⟨h1, .directory, h2, Or.inr ⟨_, hop, rfl, rfl⟩⟩
      | createSymlink p target time =>
        simp only [Option.ite_none_right_eq_some, Option.some.injEq] at hsome
        obtain ⟨⟨h1, h2⟩, rfl⟩ := hsome
        exact ⟨h1, .symlink, h2, Or.inr ⟨_, hop, rfl, rfl⟩⟩
      | rename src dst =>
        simp only [Option.ite_none_right_eq_some, Option.some.injEq, Bool.or_eq_true,
          fileExists_iff, dirExists_iff, symlinkExists_iff] at hsome
        obtain ⟨⟨h1, (h2 | h2) | h2⟩, rfl⟩ := hsome
        · exact ⟨h1, .file, h2, Or.inr ⟨_, hop, rfl⟩⟩
        · exact ⟨h1, .directory, h2, Or.inr ⟨_, hop, rfl⟩⟩
        · exact ⟨h1, .symlink, h2, Or.inr ⟨_, hop, rfl⟩⟩
      | _ => cases hsome
  · rintro ⟨hpar, k, hk, hper | ⟨op, hop, hl⟩⟩
    · left
      cases k with
      | file => exact Or.inl (Or.inl ⟨hper, hpar, hk⟩)
      | directory => exact Or.inl (Or.inr ⟨hper, hpar, hk⟩)
      | symlink => exact Or.inr ⟨hper, hpar, hk⟩
    · right
      refine ⟨op, hop, ?_⟩
      cases op with
      | createFile p time mode => obtain ⟨rfl, rfl⟩ := hl; simp [hpar, hk]
      | createDir p time mode => obtain ⟨rfl, rfl⟩ := hl; simp [hpar, hk]
      | createSymlink p target time => obtain ⟨rfl, rfl⟩ := hl; simp [hpar, hk]
      | rename src dst =>
        obtain rfl : dst = x := hl
        have : (s.fileExists dst || s.dirExists dst || s.symlinkExists dst) = true := by
          cases k <;> simp [fileExists, dirExists, symlinkExists, hk]
        simp [hpar, this]
      | _ => exact absurd hl id

/-- What is at a path was there at the start, or an operation put it there: one that a listing
looks at, or a hard link. -/
theorem replay_source {x : Path} {k : EntryKind} {log : List PendingOp} :
    ∀ {m : Path → Option EntryKind}, kindOps.replay m log x = some k →
      m x = some k ∨ (∃ op ∈ log, listsName k x op)
        ∨ (k = .file ∧ ∃ target time, PendingOp.createHardLink x target time ∈ log) := by
  induction log using List.reverseRecOn with
  | nil => exact fun h => Or.inl h
  | append_singleton log op ih =>
    intro m h
    rw [kindOps.replay_snoc] at h
    have hmem : op ∈ log ++ [op] := by simp
    have hold : kindOps.replay m log x = some k → m x = some k
        ∨ (∃ o ∈ log ++ [op], listsName k x o)
        ∨ (k = .file ∧ ∃ target time, PendingOp.createHardLink x target time ∈ log ++ [op]) := by
      intro h
      rcases ih h with h | ⟨o, ho, hl⟩ | ⟨hk, t, time, hm⟩
      · exact Or.inl h
      · exact Or.inr (Or.inl ⟨o, List.mem_append_left _ ho, hl⟩)
      · exact Or.inr (Or.inr ⟨hk, t, time, List.mem_append_left _ hm⟩)
    replace h : kindStep (kindOps.replay m log) op x = some k := h
    cases op with
    | createFile p time mode =>
      simp only [kindStep] at h
      split at h
      · rename_i hp
        cases h
        exact Or.inr (Or.inl ⟨_, hmem, rfl, hp⟩)
      · exact hold h
    | createDir p time mode =>
      simp only [kindStep] at h
      split at h
      · rename_i hp
        cases h
        exact Or.inr (Or.inl ⟨_, hmem, rfl, hp⟩)
      · exact hold h
    | createSymlink p target time =>
      simp only [kindStep] at h
      split at h
      · rename_i hp
        cases h
        exact Or.inr (Or.inl ⟨_, hmem, rfl, hp⟩)
      · exact hold h
    | createHardLink p target time =>
      simp only [kindStep] at h
      split at h
      · rename_i hp
        cases h
        subst hp
        exact Or.inr (Or.inr ⟨rfl, target, time, hmem⟩)
      · exact hold h
    | rename src dst =>
      simp only [kindStep] at h
      split at h
      · cases h
      · split at h
        · rename_i hd
          exact Or.inr (Or.inl ⟨_, hmem, hd⟩)
        · exact hold h
    | removeFile p =>
      simp only [kindStep] at h
      split at h
      · cases h
      · exact hold h
    | removeDir p =>
      simp only [kindStep] at h
      split at h
      · cases h
      · exact hold h
    | _ => exact hold h

end FsState

end Turmoil.Fs
