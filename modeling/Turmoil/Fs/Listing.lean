/-
# Listings, emptiness and lookup

Three routines look for what is in a directory.  `entry_kind` decides for one name; `dir_entries`
and `dir_has_children` go through the persisted names and the pending operations and ask
`entry_kind` about each.  Which pending operations they go through is not the same:

* `dir_entries` looks at creations of files, directories and symlinks and at the targets of
  renames, but not at hard links;
* `dir_has_children` looks at neither hard links nor renames.

So a name that only a pending hard link accounts for is in no listing, and a directory in which
all names came by pending hard links and renames passes for empty.  `listing_agrees_iff` says that
this is all that goes wrong.
-/
import Turmoil.Fs.Readers
import Turmoil.Fs.History

namespace Turmoil.Fs

namespace FsState

/-! ## 1. What the emptiness test finds -/

/-- Does `dir_has_children` take the name `x`, of kind `k`, from this pending operation? -/
def createsName (k : EntryKind) (x : Path) : PendingOp → Prop
  | .createFile p _ _ => k = .file ∧ p = x
  | .createDir p _ _ => k = .directory ∧ p = x
  | .createSymlink p _ _ => k = .symlink ∧ p = x
  | _ => False

/-- The names the emptiness test finds. -/
def Counted (s : FsState) (x : Path) : Prop :=
  ∃ k, s.entryKind x = some k ∧ (s.persistedHas k x = true ∨ ∃ op ∈ s.pending, createsName k x op)

theorem dirHasChildren_iff {s : FsState} {d : Path} :
    s.dirHasChildren d = true ↔ ∃ x, x.parent = some d ∧ s.Counted x := by
  have hkeys : ∀ {ν : Type} (m : IndexMap Path ν) x, x ∈ m.keys ↔ m.contains x = true :=
    fun m x => IndexMap.mem_keys.trans IndexMap.contains_iff.symm
  simp only [dirHasChildren, Bool.or_eq_true, List.any_eq_true, Bool.and_eq_true,
    decide_eq_true_eq, fileExists_iff, dirExists_iff, symlinkExists_iff, hkeys]
  constructor
  · rintro (((⟨x, h1, h2, h3⟩ | ⟨x, h1, h2, h3⟩) | ⟨x, h1, h2, h3⟩) | ⟨op, hop, hx⟩)
    · exact ⟨x, h2, .file, h3, Or.inl h1⟩
    · exact ⟨x, h2, .directory, h3, Or.inl h1⟩
    · exact ⟨x, h2, .symlink, h3, Or.inl h1⟩
    · cases op with
      | createFile p time mode =>
        simp only [Bool.and_eq_true, decide_eq_true_eq, fileExists_iff] at hx
        exact ⟨p, hx.1, .file, hx.2, Or.inr ⟨_, hop, rfl, rfl⟩⟩
      | createDir p time mode =>
        simp only [Bool.and_eq_true, decide_eq_true_eq, dirExists_iff] at hx
        exact ⟨p, hx.1, .directory, hx.2, Or.inr ⟨_, hop, rfl, rfl⟩⟩
      | createSymlink p target time =>
        simp only [Bool.and_eq_true, decide_eq_true_eq, symlinkExists_iff] at hx
        exact ⟨p, hx.1, .symlink, hx.2, Or.inr ⟨_, hop, rfl, rfl⟩⟩
      | _ => cases hx
  · rintro ⟨x, hpar, k, hk, hper | ⟨op, hop, hc⟩⟩
    · left
      cases k with
      | file => exact Or.inl (Or.inl ⟨x, hper, hpar, hk⟩)
      | directory => exact Or.inl (Or.inr ⟨x, hper, hpar, hk⟩)
      | symlink => exact Or.inr ⟨x, hper, hpar, hk⟩
    · refine Or.inr ⟨op, hop, ?_⟩
      cases op with
      | createFile p time mode =>
        obtain ⟨rfl, rfl⟩ := hc
        simp [hpar, fileExists_iff.mpr hk]
      | createDir p time mode =>
        obtain ⟨rfl, rfl⟩ := hc
        simp [hpar, dirExists_iff.mpr hk]
      | createSymlink p target time =>
        obtain ⟨rfl, rfl⟩ := hc
        simp [hpar, symlinkExists_iff.mpr hk]
      | _ => exact absurd hc id

/-! ## 2. What the listing misses -/

/-- A pending hard link accounts for `x` and nothing else does that a listing looks at. -/
def OnlyLinked (s : FsState) (x : Path) : Prop :=
  s.entryKind x = some .file ∧ (∃ target time, PendingOp.createHardLink x target time ∈ s.pending)
    ∧ s.persistedFiles.contains x = false ∧ (∀ time mode, PendingOp.createFile x time mode ∉ s.pending)
    ∧ ∀ src, PendingOp.rename src x ∉ s.pending

/-- Everything that exists is listed, or only linked. -/
theorem not_listed_iff {s : FsState} {x : Path} (hx : s.entryKind x ≠ none) :
    ¬ s.Listed x ↔ s.OnlyLinked x := by
  constructor
  · intro hno
    obtain ⟨k, hk⟩ := Option.ne_none_iff_exists'.mp hx
    have hstored : ¬ s.persistedHas k x = true := fun h => hno ⟨k, hk, Or.inl h⟩
    have hnone : ∀ op ∈ s.pending, ¬ listsName k x op := fun op hop hl =>
      hno ⟨k, hk, Or.inr ⟨op, hop, hl⟩⟩
    have hsource := hk
    rw [entryKind_eq_replay] at hsource
    rcases replay_source hsource with hbase | ⟨op, hop, hl⟩ | ⟨rfl, target, time, hlink⟩
    · refine absurd ?_ hstored
      cases k <;> exact persistedKind_eq_some hbase
    · exact absurd hl (hnone op hop)
    · refine ⟨hk, ⟨target, time, hlink⟩, Bool.eq_false_iff.mpr hstored, fun time mode hop => ?_,
        fun src hop => ?_⟩
      · exact hnone _ hop ⟨rfl, rfl⟩
      · exact hnone _ hop rfl
  · rintro ⟨hk, -, hstored, hcreate, hmove⟩ ⟨k, hk', hhas | ⟨op, hop, hl⟩⟩
    · cases hk.symm.trans hk'
      rw [persistedHas, hstored] at hhas
      cases hhas
    · cases hk.symm.trans hk'
      cases op with
      | createFile p time mode =>
        obtain ⟨-, rfl⟩ := hl
        exact hcreate time mode hop
      | createDir p time mode => cases hl.1
      | createSymlink p target time => cases hl.1
      | rename src dst =>
        obtain rfl : dst = x := hl
        exact hmove src hop
      | _ => exact hl

/-! ## 3. The three agree -/

/-- The listing shows what exists in `d`, each name once; `rmdir` succeeds where nothing does, and
no rename replaces `d` where something does. -/
structure ListingAgrees (s : FsState) (d : Path) : Prop where
  entries : ∀ p, p ∈ s.dirEntries d ↔ p.parent = some d ∧ p ≠ d ∧ s.entryKind p ≠ none
  once : (s.dirEntries d).Nodup
  rmdir : (s.rmdir d).isOk = true ↔ ∀ p, p.parent = some d → s.entryKind p = none
  replaced : ∀ src, (s.rename src d).isOk = true → ∀ p, p.parent = some d → s.entryKind p = none

/-- No name in `d` is only linked; and if there is a name in `d`, one of them is stored under its
kind, or its creation is pending. -/
structure Accounted (s : FsState) (d : Path) : Prop where
  linked : ∀ x, x.parent = some d → ¬ s.OnlyLinked x
  moved : ∀ x, x.parent = some d → s.entryKind x ≠ none → ∃ y, y.parent = some d ∧ s.Counted y

theorem Counted.exists {s : FsState} {x : Path} (h : s.Counted x) : s.entryKind x ≠ none := by
  obtain ⟨k, hk, -⟩ := h
  rw [hk]
  exact nofun

theorem rmdir_isOk {s : FsState} {d : Path} (hd : s.dirExists d = true) :
    (s.rmdir d).isOk = true ↔ s.dirHasChildren d = false := by
  unfold FsState.rmdir
  rw [hd]
  cases s.dirHasChildren d with
  | true => exact ⟨fun h => absurd h Bool.false_ne_true, fun h => absurd h.symm Bool.false_ne_true⟩
  | false => exact ⟨fun _ => rfl, fun _ => rfl⟩

/-- **Listing, emptiness and lookup agree** on a directory exactly if no name in it is accounted
for by a pending hard link alone, and not all of them came by pending hard links and renames. -/
theorem listing_agrees_iff {s : FsState} {d : Path} (hd : s.dirExists d = true) :
    s.ListingAgrees d ↔ s.Accounted d := by
  have hempty : s.dirHasChildren d = false ↔ ∀ x, x.parent = some d → ¬ s.Counted x := by
    rw [Bool.eq_false_iff, Ne, dirHasChildren_iff]
    simp
  constructor
  · intro h
    refine ⟨fun x hx honly => ?_, fun x hx hex => ?_⟩
    · have hex : s.entryKind x ≠ none := by
        rw [honly.1]
        exact nofun
      have hne : x ≠ d := fun heq => Path.parent_ne_self (by rw [heq] at hx; exact hx)
      exact (not_listed_iff hex).mpr honly (mem_dirEntries.mp ((h.entries x).mpr ⟨hx, hne, hex⟩)).2
    · by_contra hno
      have hok := (rmdir_isOk hd).mpr (hempty.mpr fun y hy hc => hno ⟨y, hy, hc⟩)
      exact hex (h.rmdir.mp hok x hx)
  · intro h
    have hnone : s.dirHasChildren d = false ↔ ∀ p, p.parent = some d → s.entryKind p = none := by
      rw [hempty]
      constructor
      · intro hno p hp
        by_contra hex
        obtain ⟨y, hy, hc⟩ := h.moved p hp hex
        exact hno y hy hc
      · exact fun hno x hx hc => hc.exists (hno x hx)
    refine ⟨fun p => ?_, List.nodup_dedup _, (rmdir_isOk hd).trans hnone, fun src hok => ?_⟩
    · rw [mem_dirEntries]
      constructor
      · rintro ⟨hp, k, hk, -⟩
        refine ⟨hp, fun heq => Path.parent_ne_self (by rw [heq] at hp; exact hp), ?_⟩
        rw [hk]
        exact nofun
      · rintro ⟨hp, -, hex⟩
        refine ⟨hp, ?_⟩
        by_contra hno
        exact h.linked p hp ((not_listed_iff hex).mp hno)
    · rcases s.rename_cases src d with ⟨e, he⟩ | ⟨-, -, -, -, -, hchildren⟩
      · rw [he] at hok
        cases hok
      · exact hnone.mp (hchildren (dirExists_iff.mp hd))

/-- A file is created in `/d`, and another is moved there. -/
def filledHistory : List FsOp :=
  [.mkdir (.abs ["d"]) 0 0o755, .createFile (.abs ["d", "f"]) 1 0o644,
    .createFile (.abs ["a"]) 2 0o644, .rename (.abs ["a"]) (.abs ["d", "b"])]

theorem listing_agrees_iff_filled :
    ((FsState.new .default).run filledHistory).dirExists (.abs ["d"]) = true
      ∧ ((FsState.new .default).run filledHistory).entryKind (.abs ["d", "b"]) = some .file
      ∧ ((FsState.new .default).run filledHistory).ListingAgrees (.abs ["d"]) := by
  refine ⟨by decide, by decide, (listing_agrees_iff (by decide)).mpr ⟨?_, ?_⟩⟩
  · rintro x - ⟨-, ⟨target, time, hlink⟩, -⟩
    have hpending : ((FsState.new .default).run filledHistory).pending
        = [.createDir (.abs ["d"]) 0 0o755, .createFile (.abs ["d", "f"]) 1 0o644,
          .createFile (.abs ["a"]) 2 0o644, .rename (.abs ["a"]) (.abs ["d", "b"])] := by decide
    rw [hpending] at hlink
    simp at hlink
  · intro x _ _
    exact ⟨.abs ["d", "f"], rfl, .file, by decide,
      Or.inr ⟨.createFile (.abs ["d", "f"]) 1 0o644, by decide, rfl, rfl⟩⟩

/-- The only name in `/d` comes by a rename. -/
def movedInHistory : List FsOp :=
  [.mkdir (.abs ["d"]) 0 0o755, .createFile (.abs ["a"]) 1 0o644,
    .rename (.abs ["a"]) (.abs ["d", "b"])]

/-- The only name in `/d` is a hard link. -/
def linkedHistory : List FsOp :=
  [.mkdir (.abs ["d"]) 0 0o755, .createFile (.abs ["a"]) 1 0o644,
    .hardLink (.abs ["d", "b"]) (.abs ["a"]) 2]

/-- **A directory that is not empty is removed**, and a hard link in it is not listed. -/
theorem full_directory_removed :
    (((FsState.new .default).run movedInHistory).entryKind (.abs ["d", "b"]) = some .file
        ∧ (((FsState.new .default).run movedInHistory).rmdir (.abs ["d"])).isOk = true)
      ∧ (((FsState.new .default).run linkedHistory).entryKind (.abs ["d", "b"]) = some .file
        ∧ ((FsState.new .default).run linkedHistory).dirEntries (.abs ["d"]) = [])
      ∧ ¬ ((FsState.new .default).run movedInHistory).ListingAgrees (.abs ["d"])
      ∧ ¬ ((FsState.new .default).run linkedHistory).ListingAgrees (.abs ["d"]) := by
  refine ⟨⟨by decide, by decide⟩, ⟨by decide, by decide⟩, fun h => ?_, fun h => ?_⟩
  · have hgone := h.rmdir.mp (by decide) (.abs ["d", "b"]) rfl
    exact absurd hgone (by decide)
  · have hlisted := (h.entries (.abs ["d", "b"])).mpr ⟨rfl, by decide, by decide⟩
    exact absurd hlisted (by decide)

end FsState

end Turmoil.Fs
