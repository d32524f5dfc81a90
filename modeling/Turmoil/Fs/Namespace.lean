/-
# The namespace as a replay of the pending log

`entry_kind` walks the pending queue backwards from one path.  Read forwards, it is a replay:
each pending operation updates a map from paths to kinds (`kindStep`), and `entryKind` is the
replay of the whole queue over the kinds of the persisted maps (`entryKind_eq_replay`).

Flushing is the other half.  Applying an operation to the persisted maps does to their kinds
what `kindStep` does, as long as the operation fits the maps it meets (`kindOk`) and no path is
in two of them (`MapsDisjoint`).  So a sync that pulls some operations to the front of the queue
and applies them is invisible to `entryKind` exactly when pulling them was, and that is the
partition theorem of `Turmoil.Lib.Replay` at the footprint `PendingOp.names`.
-/
import Turmoil.Lib.Replay
import Turmoil.Fs.Ops

namespace Turmoil.Fs

/-! ## 1. One operation on a map of kinds -/

/-- The names a namespace operation reads or writes.  Data operations have none. -/
def PendingOp.names : PendingOp → List Path
  | .createFile p _ _ => [p]
  | .createDir p _ _ => [p]
  | .createSymlink p _ _ => [p]
  | .createHardLink p target _ => [p, target]
  | .rename src dst => [src, dst]
  | .removeFile p => [p]
  | .removeDir p => [p]
  | _ => []

/-- The kinds after one operation. -/
def kindStep (m : Path → Option EntryKind) (op : PendingOp) (q : Path) : Option EntryKind :=
  match op with
  | .createFile p _ _ => if p = q then some .file else m q
  | .createHardLink p _ _ => if p = q then some .file else m q
  | .createDir p _ _ => if p = q then some .directory else m q
  | .createSymlink p _ _ => if p = q then some .symlink else m q
  | .removeFile p => if p = q then none else m q
  | .removeDir p => if p = q then none else m q
  | .rename src dst => if src = q then none else if dst = q then m src else m q
  | _ => m q

/-- Does the operation fit the kinds it meets? -/
def kindOk (m : Path → Option EntryKind) : PendingOp → Prop
  | .createFile p _ _ => m p = none ∨ m p = some .file
  | .createDir p _ _ => m p = none
  | .createSymlink p _ _ => m p = none
  | .createHardLink p target _ => m p = none ∧ m target = some .file
  | .rename src dst => src ≠ dst ∧ m src ≠ none ∧ (m dst = none ∨ m dst = m src)
  | .removeFile p => m p = some .file ∨ m p = some .symlink
  | .removeDir p => m p = some .directory
  | _ => True

/-- The kind operations, with their names as footprint. -/
def kindOps : LocalOps Path (Option EntryKind) PendingOp where
  step := kindStep
  footprint := PendingOp.names
  ok := kindOk
  frame := by
    intro m o k hk
    cases o <;> simp_all [kindStep, PendingOp.names, eq_comm]
  congr := by
    intro m m' o hm k hk
    have hmk := hm k hk
    cases o <;> simp_all [kindStep, PendingOp.names]
  ok_congr := by
    intro m m' o hm hok
    cases o <;> simp_all [kindOk, PendingOp.names]

@[simp] theorem kindOps_step : kindOps.step = kindStep := rfl

@[simp] theorem kindOps_footprint : kindOps.footprint = PendingOp.names := rfl

@[simp] theorem kindOps_ok : kindOps.ok = kindOk := rfl

namespace FsState

/-! ## 2. `entry_kind` is a replay -/

theorem entryKindFrom_cons (base : Path → Option EntryKind) (op : PendingOp)
    (older : List PendingOp) :
    entryKindFrom base (op :: older) = kindStep (entryKindFrom base older) op := by
  funext q
  cases op <;> rfl

/-- The backward walk computes the forward replay. -/
theorem entryKindFrom_reverse (base : Path → Option EntryKind) (log : List PendingOp) :
    entryKindFrom base log.reverse = kindOps.replay base log := by
  induction log using List.reverseRecOn with
  | nil => rfl
  | append_singleton log op ih =>
    rw [List.reverse_append, List.reverse_singleton, List.singleton_append, entryKindFrom_cons,
      ih, kindOps.replay_snoc, kindOps_step]

theorem entryKind_eq_replay (s : FsState) :
    s.entryKind = kindOps.replay s.persistedKind s.pending := by
  funext q
  exact congrFun (entryKindFrom_reverse s.persistedKind s.pending) q

theorem entryKind_push (s : FsState) (op : PendingOp) :
    (s.push op).entryKind = kindStep s.entryKind op := by
  rw [entryKind_eq_replay, entryKind_eq_replay]
  exact kindOps.replay_snoc _ _ _

/-- A path that no pending operation names has its persisted kind. -/
theorem entryKind_of_untouched {s : FsState} {q : Path} (h : ∀ op ∈ s.pending, q ∉ op.names) :
    s.entryKind q = s.persistedKind q := by
  rw [entryKind_eq_replay]
  exact kindOps.replay_frame h

theorem fileExists_iff {s : FsState} {p : Path} :
    s.fileExists p = true ↔ s.entryKind p = some .file := by simp [fileExists]

theorem dirExists_iff {s : FsState} {p : Path} :
    s.dirExists p = true ↔ s.entryKind p = some .directory := by simp [dirExists]

theorem symlinkExists_iff {s : FsState} {p : Path} :
    s.symlinkExists p = true ↔ s.entryKind p = some .symlink := by simp [symlinkExists]

/-- No kind is left but these three. -/
theorem entryKind_eq_none_iff {s : FsState} {p : Path} :
    s.entryKind p = none
      ↔ s.fileExists p = false ∧ s.dirExists p = false ∧ s.symlinkExists p = false := by
  simp only [fileExists, dirExists, symlinkExists, decide_eq_false_iff_not]
  cases h : s.entryKind p with
  | none => simp
  | some k => cases k <;> simp

/-! ## 3. The persisted maps follow -/

/-- No path is in two of the persisted maps. -/
def MapsDisjoint (s : FsState) : Prop :=
  ∀ p, (s.persistedFiles.contains p → ¬ s.persistedDirs.contains p)
    ∧ (s.persistedFiles.contains p → ¬ s.persistedSymlinks.contains p)
    ∧ (s.persistedDirs.contains p → ¬ s.persistedSymlinks.contains p)

/-- A path of the given kind is in the map of that kind. -/
theorem persistedKind_eq_some {s : FsState} {p : Path} {k : EntryKind}
    (h : s.persistedKind p = some k) :
    match k with
    | .file => s.persistedFiles.contains p = true
    | .directory => s.persistedDirs.contains p = true
    | .symlink => s.persistedSymlinks.contains p = true := by
  unfold persistedKind at h
  split at h
  · cases h
    assumption
  · split at h
    · cases h
      assumption
    · split at h
      · cases h
        assumption
      · cases h

theorem persistedKind_eq_file {s : FsState} {p : Path} :
    s.persistedKind p = some .file ↔ s.persistedFiles.contains p = true := by
  constructor
  · exact fun h => persistedKind_eq_some h
  · intro h
    rw [persistedKind, if_pos h]

theorem persistedKind_eq_none {s : FsState} {p : Path} :
    s.persistedKind p = none ↔ s.persistedFiles.contains p = false
      ∧ s.persistedDirs.contains p = false ∧ s.persistedSymlinks.contains p = false := by
  unfold persistedKind
  cases s.persistedFiles.contains p <;> cases s.persistedDirs.contains p <;>
    cases s.persistedSymlinks.contains p <;> simp

/-- With disjoint maps, being in one of them decides the kind. -/
theorem MapsDisjoint.kind_directory {s : FsState} (hd : s.MapsDisjoint) {p : Path} :
    s.persistedKind p = some .directory ↔ s.persistedDirs.contains p = true := by
  have := hd p
  revert this
  unfold persistedKind
  cases s.persistedFiles.contains p <;> cases s.persistedDirs.contains p <;>
    cases s.persistedSymlinks.contains p <;> simp

theorem MapsDisjoint.kind_symlink {s : FsState} (hd : s.MapsDisjoint) {p : Path} :
    s.persistedKind p = some .symlink ↔ s.persistedSymlinks.contains p = true := by
  have := hd p
  revert this
  unfold persistedKind
  cases s.persistedFiles.contains p <;> cases s.persistedDirs.contains p <;>
    cases s.persistedSymlinks.contains p <;> simp

/-- The three membership tests of the persisted maps at a path. -/
def bits (s : FsState) (p : Path) : Bool × Bool × Bool :=
  (s.persistedFiles.contains p, s.persistedDirs.contains p, s.persistedSymlinks.contains p)

/-- The persisted maps as membership tests, when the kinds are right and the maps disjoint. -/
def bitsOf : Option EntryKind → Bool × Bool × Bool
  | none => (false, false, false)
  | some .file => (true, false, false)
  | some .directory => (false, true, false)
  | some .symlink => (false, false, true)

/-- Disjoint maps are determined, as sets, by the kinds. -/
theorem mapsDisjoint_iff {s : FsState} :
    s.MapsDisjoint ↔ ∀ p, s.bits p = bitsOf (s.persistedKind p) := by
  refine forall_congr' fun p => ?_
  unfold bits persistedKind
  cases s.persistedFiles.contains p <;> cases s.persistedDirs.contains p <;>
    cases s.persistedSymlinks.contains p <;> simp [bitsOf]

/-- A state whose membership tests are those of a map of kinds has these kinds, disjointly. -/
theorem kind_of_bits {s : FsState} {m : Path → Option EntryKind}
    (h : ∀ p, s.bits p = bitsOf (m p)) : s.persistedKind = m ∧ s.MapsDisjoint := by
  have hk : s.persistedKind = m := by
    funext p
    have := h p
    revert this
    unfold persistedKind bits
    cases s.persistedFiles.contains p <;> cases s.persistedDirs.contains p <;>
      cases s.persistedSymlinks.contains p <;> rcases m p with _ | _ | _ | _ <;> simp [bitsOf]
  exact ⟨hk, mapsDisjoint_iff.mpr (fun p => hk ▸ h p)⟩

/-- **Applying an operation does to the persisted kinds what `kindStep` says**, and keeps the
maps disjoint, if the operation fits. -/
theorem kind_applyOp {s : FsState} {op : PendingOp} (hd : s.MapsDisjoint)
    (hok : kindOk s.persistedKind op) :
    (s.applyOpToPersisted op).persistedKind = kindStep s.persistedKind op
      ∧ (s.applyOpToPersisted op).MapsDisjoint := by
  apply kind_of_bits
  intro q
  have hq := mapsDisjoint_iff.mp hd
  cases op with
  | createFile p time mode =>
    simp only [applyOpToPersisted, bits, kindStep, IndexMap.contains_orInsert]
    grind [bits, bitsOf, kindOk]
  | createDir p time mode =>
    simp only [applyOpToPersisted, bits, kindStep, IndexMap.contains_orInsert]
    grind [bits, bitsOf, kindOk]
  | createSymlink p target time =>
    simp only [applyOpToPersisted, bits, kindStep, IndexMap.contains_orInsert]
    grind [bits, bitsOf, kindOk]
  | createHardLink p target time =>
    obtain ⟨t, ht⟩ := IndexMap.contains_iff.mp (persistedKind_eq_file.mp hok.2)
    simp only [applyOpToPersisted, ht, bits, kindStep, IndexMap.contains_insert,
      IndexMap.contains_modify]
    grind [bits, bitsOf, kindOk]
  | write p offset data time =>
    simpa [applyOpToPersisted, bits, kindStep] using hq q
  | setLen p len time =>
    simpa [applyOpToPersisted, bits, kindStep] using hq q
  | setPermissions p mode time =>
    simp only [applyOpToPersisted]
    split <;> simpa [bits, kindStep] using hq q
  | rename src dst =>
    -- which map the source is in is its kind
    obtain ⟨hne, hsrc, hdst⟩ := hok
    have hqs := hq src
    have hqd := hq dst
    have hqq := hq q
    simp only [applyOpToPersisted]
    split
    · rename_i d hf
      have hk := persistedKind_eq_file.mpr (IndexMap.contains_iff.mpr ⟨d, hf⟩)
      simp only [bits, kindStep, IndexMap.contains_insert, IndexMap.contains_swapRemove] at *
      grind [bitsOf]
    · rename_i hf
      split
      · rename_i d hdir
        have hk := hd.kind_directory.mpr (IndexMap.contains_iff.mpr ⟨d, hdir⟩)
        simp only [bits, kindStep, IndexMap.contains_insert, IndexMap.contains_swapRemove] at *
        grind [bitsOf]
      · rename_i hdir
        split
        · rename_i d hl
          have hk := hd.kind_symlink.mpr (IndexMap.contains_iff.mpr ⟨d, hl⟩)
          simp only [bits, kindStep, IndexMap.contains_insert, IndexMap.contains_swapRemove] at *
          grind [bitsOf]
        · rename_i hl
          exact absurd (persistedKind_eq_none.mpr ⟨IndexMap.contains_eq_false.mpr hf,
            IndexMap.contains_eq_false.mpr hdir, IndexMap.contains_eq_false.mpr hl⟩) hsrc
  | removeFile p =>
    simp only [applyOpToPersisted, bits, kindStep, IndexMap.contains_swapRemove]
    grind [bits, bitsOf, kindOk]
  | removeDir p =>
    simp only [applyOpToPersisted, bits, kindStep, IndexMap.contains_swapRemove]
    grind [bits, bitsOf, kindOk]

/-! ## 4. A run of flushed operations -/

/-- The persisted maps and the pending queue are coherent: the maps are disjoint, and the queue
fits them. -/
structure Coherent (s : FsState) : Prop where
  disjoint : s.MapsDisjoint
  valid : kindOps.Valid s.persistedKind s.pending

/-- Flushing a valid log, one operation at a time, replays it on the persisted kinds. -/
theorem kind_foldl {flush : FsState → PendingOp → FsState}
    (hf : ∀ s op, (flush s op).bits = (s.applyOpToPersisted op).bits) {log : List PendingOp} :
    ∀ {s : FsState}, s.MapsDisjoint → kindOps.Valid s.persistedKind log →
      (log.foldl flush s).persistedKind = kindOps.replay s.persistedKind log
        ∧ (log.foldl flush s).MapsDisjoint := by
  induction log with
  | nil => exact fun hd _ => ⟨rfl, hd⟩
  | cons op log ih =>
    intro s hd hv
    obtain ⟨hk, hd'⟩ := kind_applyOp hd hv.1
    have hb : ∀ p, (flush s op).bits p = bitsOf (kindStep s.persistedKind op p) := by
      intro p
      rw [hf, ← hk]
      exact mapsDisjoint_iff.mp hd' p
    obtain ⟨hk1, hd1⟩ := kind_of_bits hb
    obtain ⟨h1, h2⟩ := ih hd1 (by rw [hk1]; exact hv.2)
    exact ⟨by rw [List.foldl_cons, h1, hk1]; rfl, h2⟩

/-- A push that fits keeps the state coherent. -/
theorem Coherent.push {s : FsState} (h : s.Coherent) {op : PendingOp}
    (hok : kindOk s.entryKind op) : (s.push op).Coherent where
  disjoint := h.disjoint
  valid := kindOps.valid_snoc.mpr ⟨h.valid, entryKind_eq_replay s ▸ hok⟩

/-! ## 5. Lookup and map updates -/

/-- The namespace is a map from names to kinds.  A creation sets a name's kind, a removal deletes
it, and a rename moves the kind of the source over the destination. -/
def mapUpdate (m : Path → Option EntryKind) : PendingOp → Path → Option EntryKind
  | .createFile p _ _ => Function.update m p (some .file)
  | .createHardLink p _ _ => Function.update m p (some .file)
  | .createDir p _ _ => Function.update m p (some .directory)
  | .createSymlink p _ _ => Function.update m p (some .symlink)
  | .removeFile p => Function.update m p none
  | .removeDir p => Function.update m p none
  | .rename src dst => Function.update (Function.update m dst (m src)) src none
  | _ => m

/-- The map of the persisted names. -/
def IsBase (s : FsState) (m : Path → Option EntryKind) : Prop :=
  ∀ p, (m p = some .file ↔ s.persistedFiles.contains p = true)
    ∧ (m p = some .directory ↔ s.persistedDirs.contains p = true)
    ∧ (m p = some .symlink ↔ s.persistedSymlinks.contains p = true)

theorem IsBase.persistedKind {s : FsState} {m : Path → Option EntryKind} (h : s.IsBase m) :
    s.persistedKind = m := by
  refine (kind_of_bits fun p => ?_).1
  have hp := h p
  revert hp
  unfold bits
  cases s.persistedFiles.contains p <;> cases s.persistedDirs.contains p <;>
    cases s.persistedSymlinks.contains p <;> rcases m p with _ | _ | _ | _ <;> simp [bitsOf]

theorem kindStep_eq_mapUpdate : kindStep = mapUpdate := by
  funext m op q
  cases op <;> simp only [kindStep, mapUpdate, Function.update_apply, eq_comm (a := q)]

/-- **Entry lookup is replay.**  The one backwards walk of `entry_kind` finds what the pending
operations, taken forwards as updates of the map of persisted names, leave at the name: for every
queue, however its renames chain, reuse their sources and overwrite their destinations. -/
theorem entry_lookup_is_replay (s : FsState) {m : Path → Option EntryKind} (hbase : s.IsBase m)
    (p : Path) : s.entryKind p = s.pending.foldl mapUpdate m p := by
  rw [entryKind_eq_replay, hbase.persistedKind, LocalOps.replay, kindOps_step,
    kindStep_eq_mapUpdate]

/-- `/a` is moved to `/b` and created again, then `/b` is moved on to `/c` over a directory entry
that was removed. -/
def reusedSource : FsState :=
  { FsState.new .default with
    pending := [.createFile (.abs ["a"]) 0 0, .createDir (.abs ["c"]) 0 0, .rename (.abs ["a"]) (.abs ["b"]),
      .createSymlink (.abs ["a"]) (.abs ["b"]) 0, .removeDir (.abs ["c"]),
      .rename (.abs ["b"]) (.abs ["c"])] }

theorem entry_lookup_is_replay_reusedSource :
    ∃ m, reusedSource.IsBase m ∧ reusedSource.entryKind (.abs ["c"]) = some .file
      ∧ reusedSource.pending.foldl mapUpdate m (.abs ["c"]) = some .file := by
  have hbase : reusedSource.IsBase fun p => if p = Path.root then some .directory else none := by
    intro p
    by_cases hp : p = Path.root
    · subst hp
      exact ⟨by decide, by decide, by decide⟩
    · have hdirs : reusedSource.persistedDirs.contains p = false := by
        rw [Bool.eq_false_iff]
        intro h
        exact hp (by simpa [reusedSource, FsState.new] using h)
      dsimp only
      rw [if_neg hp, hdirs]
      exact ⟨⟨nofun, nofun⟩, ⟨nofun, nofun⟩, ⟨nofun, nofun⟩⟩
  refine ⟨_, hbase, by decide, ?_⟩
  rw [← entry_lookup_is_replay reusedSource hbase]
  decide

end FsState

end Turmoil.Fs
