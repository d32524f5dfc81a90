/-
# The bytes in use

What a disk holds is the bytes of its files, each file once, whatever its names: the sum of the
lengths over the names that the bytes of existing files are stored under (`spaceUsed`).

This module says how each call moves that sum.  A call that takes no name and gives no file a new
length cannot raise it, and one that makes a single file longer raises it by no more than that
(`spaceUsed_le`); so it is enough to follow, for each call, which names still hold the bytes of a
file and how long they are.
-/
import Mathlib.Algebra.BigOperators.Group.Finset.Piecewise
import Mathlib.Algebra.Order.BigOperators.Group.Finset
import Turmoil.Fs.Attribution
import Turmoil.Fs.Renaming
import Turmoil.Fs.Shim

namespace Turmoil.Fs

namespace FsState

/-! ## 1. The sum -/

/-- The names the maps of files or the queue speak of. -/
def knownNames (s : FsState) : List Path :=
  s.persistedFiles.keys ++ s.pending.flatMap PendingOp.names

/-- The names that bytes of existing files are stored under. -/
def liveContents (s : FsState) : Finset Path :=
  ((s.knownNames.filter s.fileExists).filterMap s.resolveContentPath).toFinset

/-- The bytes of all existing files, each counted once. -/
def spaceUsed (s : FsState) : Nat := ∑ c ∈ s.liveContents, s.fileLenAt c

theorem mem_knownNames {s : FsState} {q : Path} (h : s.entryKind q = some .file) :
    q ∈ s.knownNames := by
  by_contra hno
  obtain ⟨hstored, hnamed⟩ := not_or.mp fun hor => hno (List.mem_append.mpr hor)
  rw [entryKind_of_untouched fun op hop hq => hnamed (List.mem_flatMap.mpr ⟨op, hop, hq⟩),
    persistedKind_eq_file, IndexMap.contains_iff] at h
  exact hstored (IndexMap.mem_keys.mpr h)

theorem mem_liveContents {s : FsState} {c : Path} :
    c ∈ s.liveContents ↔ ∃ q, s.entryKind q = some .file ∧ s.resolveContentPath q = some c := by
  rw [liveContents, List.mem_toFinset, List.mem_filterMap]
  constructor
  · rintro ⟨q, hq, hc⟩
    exact ⟨q, fileExists_iff.mp (List.mem_filter.mp hq).2, hc⟩
  · rintro ⟨q, hq, hc⟩
    exact ⟨q, List.mem_filter.mpr ⟨mem_knownNames hq, fileExists_iff.mpr hq⟩, hc⟩

/-- **No file got longer**, but for the one stored under `c₀`, by `g` at most; and what is new is
empty. -/
theorem spaceUsed_le {s t : FsState} (c₀ : Path) (g : Nat)
    (h : ∀ c ∈ t.liveContents, t.fileLenAt c = 0
      ∨ c ∈ s.liveContents ∧ t.fileLenAt c ≤ s.fileLenAt c + if c = c₀ then g else 0) :
    t.spaceUsed ≤ s.spaceUsed + g := by
  have hle : ∑ c ∈ t.liveContents, t.fileLenAt c
      ≤ ∑ c ∈ t.liveContents.filter (· ∈ s.liveContents),
        (s.fileLenAt c + if c = c₀ then g else 0) := by
    rw [← Finset.sum_filter_add_sum_filter_not t.liveContents (· ∈ s.liveContents)]
    have hnew : ∑ c ∈ t.liveContents.filter (· ∉ s.liveContents), t.fileLenAt c = 0 := by
      refine Finset.sum_eq_zero fun c hc => ?_
      obtain ⟨hmem, hno⟩ := Finset.mem_filter.mp hc
      exact (h c hmem).resolve_right fun hold => hno hold.1
    rw [hnew, Nat.add_zero]
    refine Finset.sum_le_sum fun c hc => ?_
    rcases h c (Finset.mem_filter.mp hc).1 with hzero | ⟨-, hlen⟩
    · rw [hzero]
      exact Nat.zero_le _
    · exact hlen
  refine Nat.le_trans hle ?_
  rw [Finset.sum_add_distrib]
  refine Nat.add_le_add ?_ ?_
  · exact Finset.sum_le_sum_of_subset fun c hc => (Finset.mem_filter.mp hc).2
  · rw [Finset.sum_ite_eq']
    split
    · exact Nat.le_refl _
    · exact Nat.zero_le _

/-- No file got longer, and what is new is empty. -/
theorem spaceUsed_mono {s t : FsState} (h : ∀ c ∈ t.liveContents, t.fileLenAt c = 0
    ∨ c ∈ s.liveContents ∧ t.fileLenAt c ≤ s.fileLenAt c) : t.spaceUsed ≤ s.spaceUsed := by
  refine spaceUsed_le Path.root 0 fun c hc => (h c hc).imp_right fun ⟨hold, hlen⟩ => ⟨hold, ?_⟩
  exact Nat.le_trans hlen (Nat.le_add_right _ _)

/-- The sum depends on what is stored and what is queued only. -/
theorem spaceUsed_congr {s t : FsState} (hf : t.persistedFiles = s.persistedFiles)
    (hd : t.persistedDirs = s.persistedDirs) (hl : t.persistedSymlinks = s.persistedSymlinks)
    (hp : t.pending = s.pending) : t.spaceUsed = s.spaceUsed := by
  have hkind : t.entryKind = s.entryKind := by
    have hbase : t.persistedKind = s.persistedKind := kind_congr (bits_congr hf (fun q => by rw [hd]) hl)
    rw [entryKind_eq_replay, entryKind_eq_replay, hbase, hp]
  have hlive : t.liveContents = s.liveContents := by
    ext c
    simp only [mem_liveContents, hkind, resolveContentPath_congr hp]
  have hlen : t.fileLenAt = s.fileLenAt := by
    funext c
    have haddr : ∀ x, t.addressesContent x c = s.addressesContent x c := by
      intro x
      rw [addressesContent, addressesContent, pathRenamedTo_eq, pathRenamedTo_eq, hp]
    rw [fileLenAt_eq, fileLenAt_eq, dataAt, dataAt, hp, storedContent, storedContent, hf]
    rw [List.filter_congr fun op _ => isDataAt_congr haddr op]
  rw [spaceUsed, spaceUsed, hlive, hlen]

/-! ## 2. What is queued -/

/-- What a new name would show is nothing, or a file's already. -/
def ShowsNothingNew (s : FsState) (p : Path) : Prop :=
  ∀ c, s.resolveContentPath p = some c → c ∈ s.liveContents ∨ s.fileLenAt c = 0

section Push

variable {s : FsState} {op : PendingOp} (hop : moves op = false)

include hop

/-- A queued operation that moves nothing changes a length by its own step, or not at all. -/
theorem push_fileLenAt (c : Path) : (s.push op).fileLenAt c
    = if s.isDataAt c op then lenStep (s.fileLenAt c) op else s.fileLenAt c := by
  rw [fileLenAt_eq, fileLenAt_eq, push_dataAt hop, List.foldl_append]
  show List.foldl lenStep (List.foldl lenStep (s.storedContent c).length (s.dataAt c)) _ = _
  cases hd : s.isDataAt c op with
  | false =>
    rw [List.filter_cons_of_neg (by rw [hd]; exact nofun)]
    rfl
  | true =>
    rw [List.filter_cons_of_pos hd]
    rfl

/-- The names in use after it are in use before, or are that of a new file. -/
theorem mem_liveContents_push {c : Path} (hc : c ∈ (s.push op).liveContents) :
    c ∈ s.liveContents ∨ ∃ q time mode, op = .createFile q time mode
      ∧ s.resolveContentPath q = some c := by
  obtain ⟨q, hq, hqc⟩ := mem_liveContents.mp hc
  rw [push_resolveContentPath hop] at hqc
  rw [entryKind_push] at hq
  by_cases hold : s.entryKind q = some .file
  · exact Or.inl (mem_liveContents.mpr ⟨q, hold, hqc⟩)
  · cases op with
    | createFile p time mode =>
      simp only [kindStep] at hq
      split at hq
      · rename_i hpq
        subst hpq
        exact Or.inr ⟨_, _, _, rfl, hqc⟩
      · exact absurd hq hold
    | rename a b => cases hop
    | createHardLink p target time => cases hop
    | createDir p time mode =>
      simp only [kindStep] at hq
      split at hq
      · cases hq
      · exact absurd hq hold
    | createSymlink p target time =>
      simp only [kindStep] at hq
      split at hq
      · cases hq
      · exact absurd hq hold
    | removeFile p =>
      simp only [kindStep] at hq
      split at hq
      · cases hq
      · exact absurd hq hold
    | removeDir p =>
      simp only [kindStep] at hq
      split at hq
      · cases hq
      · exact absurd hq hold
    | write p offset data time => exact absurd hq hold
    | setLen p len time => exact absurd hq hold
    | setPermissions p mode time => exact absurd hq hold

/-- **An operation on names only** raises the sum by nothing, if a file it creates is empty. -/
theorem spaceUsed_push (hname : ∀ c, s.isDataAt c op = false)
    (hnew : ∀ q time mode, op = .createFile q time mode → s.ShowsNothingNew q) :
    (s.push op).spaceUsed ≤ s.spaceUsed := by
  refine spaceUsed_mono fun c hc => ?_
  have hlen : (s.push op).fileLenAt c = s.fileLenAt c := by
    rw [push_fileLenAt hop, hname, if_neg nofun]
  rw [hlen]
  rcases mem_liveContents_push hop hc with hold | ⟨q, time, mode, rfl, hqc⟩
  · exact Or.inr ⟨hold, Nat.le_refl _⟩
  · rcases hnew q time mode rfl c hqc with hlive | hzero
    · exact Or.inr ⟨hlive, Nat.le_refl _⟩
    · exact Or.inl hzero

/-- **A data operation** raises the sum by what it adds to the one file it makes longer. -/
theorem spaceUsed_push_data {p : Path} (hd : isDataOf p op = true) (c₀ : Path) (g : Nat)
    (h : ∀ c ∈ s.liveContents, s.addressesContent p c = true →
      lenStep (s.fileLenAt c) op ≤ s.fileLenAt c + if c = c₀ then g else 0) :
    (s.push op).spaceUsed ≤ s.spaceUsed + g := by
  refine spaceUsed_le c₀ g fun c hc => Or.inr ?_
  have hlive : c ∈ s.liveContents := by
    rcases mem_liveContents_push hop hc with hold | ⟨q, time, mode, rfl, -⟩
    · exact hold
    · cases hd
  refine ⟨hlive, ?_⟩
  rw [push_fileLenAt hop, isDataAt_of_isDataOf hd]
  split
  · rename_i haddr
    exact h c hlive haddr
  · exact Nat.le_add_right _ _

end Push

/-! ## 3. Hard links -/

section HardLink

variable {s : FsState} {p target : Path} {time : Duration}

theorem push_link_fileLenAt (c : Path) :
    (s.push (.createHardLink p target time)).fileLenAt c = s.fileLenAt c := by
  have haddr : ∀ x, (s.push (.createHardLink p target time)).addressesContent x c
      = s.addressesContent x c := by
    intro x
    rw [addressesContent, addressesContent, pathRenamedTo_eq, pathRenamedTo_eq, push, pushAll,
      List.foldl_append]
    rfl
  have hdata : (s.push (.createHardLink p target time)).dataAt c = s.dataAt c := by
    have hlink : (s.push (.createHardLink p target time)).isDataAt c
        (.createHardLink p target time) = false := rfl
    show (s.pending ++ [PendingOp.createHardLink p target time]).filter _ = _
    rw [List.filter_append, List.filter_cons_of_neg (by rw [hlink]; exact Bool.false_ne_true), List.filter_nil,
      List.append_nil, dataAt]
    exact List.filter_congr fun op _ => isDataAt_congr haddr op
  rw [fileLenAt_eq, fileLenAt_eq, hdata]
  rfl

/-- Every path leads where it led, or where the target leads. -/
theorem resolveContentPath_push_link {q c : Path}
    (h : (s.push (.createHardLink p target time)).resolveContentPath q = some c) :
    ((q ≠ p ∨ s.resolveHardlinkTarget p ≠ none) ∧ s.resolveContentPath q = some c)
      ∨ s.resolveContentPath target = some c := by
  have hpull : ∀ r, pullAll (s.push (.createHardLink p target time)).pending r
      = pullAll s.pending r := fun r => List.foldr_append ..
  have hfuel : ∀ x, chase s.resolveHardlinkTarget
      ((s.push (.createHardLink p target time)).pending.length + 1) x = s.linkEnd x := by
    intro x
    rw [linkEnd, s.chase_linked (Nat.lt_succ_self _), s.chase_linked]
    rw [push, List.length_append]
    exact Nat.lt_succ_of_le (Nat.le_add_right _ _)
  rw [resolveContentPath_eq_linkEnd] at h
  obtain ⟨y, hy, rfl⟩ := Option.map_eq_some_iff.mp h
  rw [hpull, resolveContentPath_eq_linkEnd, resolveContentPath_eq_linkEnd]
  rw [linkEnd] at hy
  cases hp : s.resolveHardlinkTarget p with
  | none =>
    rw [s.resolveHardlinkTarget_push_link hp] at hy
    rcases chase_update hy with ⟨hq, hold⟩ | htarget
    · rw [hfuel] at hold
      exact Or.inl ⟨Or.inl hq, by rw [hold]; rfl⟩
    · rw [hfuel] at htarget
      exact Or.inr (by rw [htarget]; rfl)
  | some t =>
    rw [s.resolveHardlinkTarget_push_again (by rw [hp]; exact Option.some_ne_none t), hfuel] at hy
    exact Or.inl ⟨Or.inr (Option.some_ne_none t), by rw [hy]; rfl⟩

/-- **A hard link takes no space.** -/
theorem spaceUsed_push_link (htarget : s.entryKind target = some .file)
    (hp : s.resolveHardlinkTarget p = none ∨ s.ShowsNothingNew p) :
    (s.push (.createHardLink p target time)).spaceUsed ≤ s.spaceUsed := by
  refine spaceUsed_mono fun c hc => ?_
  rw [push_link_fileLenAt]
  obtain ⟨q, hq, hqc⟩ := mem_liveContents.mp hc
  rcases resolveContentPath_push_link hqc with ⟨hne, hold⟩ | hto
  · rw [entryKind_push] at hq
    by_cases hqp : p = q
    · subst hqp
      rcases hp with hnone | hnew
      · exact absurd hnone (hne.resolve_left fun h => h rfl)
      · exact (hnew c hold).symm.imp id fun hlive => ⟨hlive, Nat.le_refl _⟩
    · rw [kindStep, if_neg hqp] at hq
      exact Or.inr ⟨mem_liveContents.mpr ⟨q, hq, hold⟩, Nat.le_refl _⟩
  · exact Or.inr ⟨mem_liveContents.mpr ⟨target, htarget, hto⟩, Nat.le_refl _⟩

end HardLink

/-! ## 4. Renames -/

/-- The condition on a rename: no file is linked to the new name, and no write recorded under
another name than the bytes it belongs to is on its way to the old one. -/
structure RenameKeeps (s : FsState) (a b : Path) : Prop where
  source : s.entryKind a = some .file →
    s.resolveHardlinkTarget a = none ∧ s.resolveHardlinkTarget b = none
  links : ∀ q, q ≠ a → q ≠ b → s.entryKind q = some .file → s.linkEnd q ≠ some b
  writes : ∀ c ∈ s.liveContents, c = a ∨ c = b → ∀ op ∈ s.pending, ∀ p,
    isDataOf p op = true → s.pathRenamedTo p a = true → p = c

/-- **A rename takes no space.** -/
theorem RenameKeeps.spaceUsed_le {s : FsState} {a b : Path} (h : s.RenameKeeps a b) :
    (s.push (.rename a b)).spaceUsed ≤ s.spaceUsed := by
  refine spaceUsed_mono fun c hc => Or.inr ?_
  obtain ⟨q, hq, hqc⟩ := mem_liveContents.mp hc
  rw [entryKind_push, kindStep] at hq
  have hlive : c ∈ s.liveContents := by
    split at hq
    · cases hq
    · rename_i hqa
      split at hq
      · rename_i hqb
        subst hqb
        obtain ⟨hla, hlb⟩ := h.source hq
        exact mem_liveContents.mpr ⟨a, hq, by rw [← hqc, resolveContentPath_rename_dst hla hlb]⟩
      · rename_i hqb
        have hne := h.links q (Ne.symm hqa) (Ne.symm hqb) hq
        exact mem_liveContents.mpr ⟨q, hq, by rw [← hqc, resolveContentPath_rename_of_ne hne]⟩
  have hsame : (s.push (.rename a b)).contentAt c = s.contentAt c := by
    refine contentAt_rename fun op hop p hd hp hne => not_or.mp fun hor => hne ?_
    refine h.writes c hlive hor op hop p hd ?_
    rw [pathRenamedTo_eq]
    exact decide_eq_true hp
  refine ⟨hlive, ?_⟩
  rw [← length_contentAt, ← length_contentAt, hsame]

/-! ## 5. Syncs -/

/-- **A sync of a file takes no space.** -/
theorem FileSyncOk.spaceUsed_le {s : FsState} {p : Path} (hc : s.Coherent)
    (hok : s.fileExists p = true → s.FileSyncOk p) : (s.flushFile p).1.spaceUsed ≤ s.spaceUsed := by
  cases hex : s.fileExists p with
  | false =>
    rw [flushFile_err hex]
  | true =>
    have h := hok hex
    refine spaceUsed_mono fun c hlive => Or.inr ?_
    obtain ⟨q, hq, hqc⟩ := mem_liveContents.mp hlive
    rw [(flushFile_kind hc fun _ => h.inode).1] at hq
    have hold := flushFile_resolveContentPath hex q ▸ hqc
    have hsame := h.content_eq hex q
    rw [content, content, hqc, hold, Option.map_some, Option.map_some] at hsame
    refine ⟨mem_liveContents.mpr ⟨q, hq, hold⟩, ?_⟩
    rw [← length_contentAt, ← length_contentAt, Option.some.inj hsame]

/-- **A sync of a directory takes no space.** -/
theorem DirSyncOk.spaceUsed_le {s : FsState} {d : Path} (hc : s.Coherent)
    (hok : s.dirExists d = true → s.DirSyncOk d) (time : Duration) :
    (s.syncDir d time).1.spaceUsed ≤ s.spaceUsed := by
  cases hex : s.dirExists d with
  | false =>
    rw [syncDir_err hex]
  | true =>
    have h := hok hex
    refine spaceUsed_mono fun c hlive => ?_
    obtain ⟨q, hq, hqc⟩ := mem_liveContents.mp hlive
    rw [(syncDir_kind hc h.apart time).1] at hq
    rw [← length_contentAt, h.contentAt_eq hex time, length_contentAt]
    rcases h.resolve_cases hex time q with hsame | ⟨c₀, c', hc', -, hnew, -⟩
    · exact Or.inr ⟨mem_liveContents.mpr ⟨q, hq, hsame ▸ hqc⟩, Nat.le_refl _⟩
    · obtain rfl := Option.some.inj (hqc.symm.trans hc')
      exact Or.inl (by rw [← length_contentAt, hnew]; rfl)

/-! ## 6. Crashes -/

def isWriteTo (p : Path) : PendingOp → Bool
  | .write q _ _ _ => q = p
  | _ => false

/-- The most bytes a crash can leave under a name: all pending writes, where writes are torn. -/
def crashLen (s : FsState) (p : Path) : Nat :=
  match s.blockSize with
  | none => (s.storedContent p).length
  | some _ => (s.pending.filter (isWriteTo p)).foldl lenStep (s.storedContent p).length

/-- The most bytes a crash can leave: those of the files whose entries are durable. -/
def crashSpace (s : FsState) : Nat :=
  ∑ p ∈ (s.persistedFiles.keys.filter s.syncedEntries.contains).toFinset, s.crashLen p

theorem foldl_lenStep_mono (ops : List PendingOp) {m n : Nat} (h : m ≤ n) :
    ops.foldl lenStep m ≤ ops.foldl lenStep n := by
  induction ops generalizing m n with
  | nil => exact h
  | cons op ops ih =>
    refine ih ?_
    cases op with
    | write p offset data time => exact max_le_max_right _ h
    | setLen p len time => exact Nat.le_refl _
    | _ => exact h

/-- One write applied: the file gets as long as it says, if there is one. -/
theorem applyOp_write_storedLen (s : FsState) (q : Path) (offset : Nat) (data : List UInt8)
    (time : Duration) (p : Path) :
    ((s.applyOpToPersisted (.write q offset data time)).storedContent p).length
      ≤ if q = p then max (s.storedContent p).length (offset + data.length)
        else (s.storedContent p).length := by
  simp only [applyOpToPersisted, storedContent, IndexMap.get?_modify]
  split
  · rename_i hqp
    subst hqp
    rw [if_pos rfl]
    cases s.persistedFiles.get? p with
    | none => exact Nat.zero_le _
    | some f => simp [FileData.applyWrite]
  · rename_i hqp
    rw [if_neg fun e => hqp e.symm]

/-- Torn writes make no file longer than whole ones would. -/
theorem applyTornWrites_storedLen (s : FsState) (blockSize : Nat) (surviving : Nat → Nat)
    (p : Path) : ((s.applyTornWrites blockSize surviving).storedContent p).length
      ≤ (s.pending.filter (isWriteTo p)).foldl lenStep (s.storedContent p).length := by
  let torn (x : PendingOp × Nat) : Option PendingOp := s.tornWrite blockSize (surviving x.2) x.1
  have hrun : ∀ (log : List PendingOp) (n : Nat) (t : FsState),
      ((((log.zipIdx n).filterMap torn).foldl applyOpToPersisted t).storedContent p).length
        ≤ (log.filter (isWriteTo p)).foldl lenStep (t.storedContent p).length := by
    intro log
    induction log with
    | nil => exact fun _ _ => Nat.le_refl _
    | cons op log ih =>
      intro n t
      rw [List.zipIdx_cons]
      cases htorn : torn (op, n) with
      | none =>
        rw [List.filterMap_cons_none htorn]
        refine Nat.le_trans (ih _ t) ?_
        rw [List.filter_cons]
        split
        · rw [List.foldl_cons]
          refine foldl_lenStep_mono _ ?_
          cases op with
          | write q offset data time => exact Nat.le_max_left _ _
          | _ => contradiction
        · exact Nat.le_refl _
      | some o =>
        rw [List.filterMap_cons_some htorn]
        obtain ⟨q, offset, data, time, m, rfl, rfl⟩ := tornWrite_eq_some htorn
        refine Nat.le_trans (ih _ _) ?_
        refine Nat.le_trans (foldl_lenStep_mono _ (applyOp_write_storedLen ..)) ?_
        rw [List.filter_cons]
        by_cases hqp : q = p
        · rw [if_pos hqp, isWriteTo, if_pos (decide_eq_true hqp), List.foldl_cons]
          refine foldl_lenStep_mono _ (max_le_max_left _ ?_)
          rw [List.length_take]
          omega
        · rw [if_neg hqp, isWriteTo, if_neg fun h => hqp (of_decide_eq_true h)]
  exact hrun s.pending 0 s

/-- The files after a crash, and how long they are. -/
theorem crash_file {s : FsState} {surviving : Nat → Nat} {p : Path}
    (h : (s.crash surviving).entryKind p = some .file) :
    p ∈ (s.persistedFiles.keys.filter s.syncedEntries.contains).toFinset
      ∧ (s.crash surviving).fileLenAt p ≤ s.crashLen p := by
  have hpending : (s.crash surviving).pending = [] := rfl
  obtain ⟨t, hfiles, hhas, hlen⟩ : ∃ t : FsState,
      (s.crash surviving).persistedFiles = t.persistedFiles.retainKeys s.syncedEntries.contains
        ∧ t.persistedFiles.contains p = s.persistedFiles.contains p
        ∧ (t.storedContent p).length ≤ s.crashLen p := by
    unfold crash crashLen
    cases s.blockSize with
    | none => exact ⟨s, rfl, rfl, Nat.le_refl _⟩
    | some b =>
      have hbits := congrArg Prod.fst (congrFun (s.applyTornWrites_bits b surviving) p)
      have hsynced := applyTornWrites_keeps FsState.syncedEntries
        (fun _ _ _ _ _ => rfl) s b surviving
      exact ⟨s.applyTornWrites b surviving, by rw [← hsynced], hbits,
        s.applyTornWrites_storedLen b surviving p⟩
  have hstored : (s.crash surviving).persistedFiles.contains p = true := persistedKind_eq_file.mp h
  rw [hfiles, IndexMap.contains_retainKeys, Bool.and_eq_true, hhas] at hstored
  obtain ⟨hsynced, hkey⟩ := hstored
  have hmem := IndexMap.mem_keys.mpr (IndexMap.contains_iff.mp hkey)
  refine ⟨List.mem_toFinset.mpr (List.mem_filter.mpr ⟨hmem, hsynced⟩), ?_⟩
  have hsame : (s.crash surviving).storedContent p = t.storedContent p := by
    rw [storedContent, hfiles, IndexMap.get?_retainKeys, if_pos hsynced]
    rfl
  rw [fileLenAt_eq, dataAt, hpending, List.filter_nil, List.foldl_nil, hsame]
  exact hlen

/-- **What a crash leaves in use.** -/
theorem crash_spaceUsed_le (s : FsState) (surviving : Nat → Nat) :
    (s.crash surviving).spaceUsed ≤ s.crashSpace := by
  have hends : ∀ c ∈ (s.crash surviving).liveContents,
      (s.crash surviving).entryKind c = some .file := by
    intro c hc
    obtain ⟨q, hq, hqc⟩ := mem_liveContents.mp hc
    rw [resolveContentPath_of_no_link fun _ _ hm => by cases hm] at hqc
    exact Option.some.inj hqc ▸ hq
  calc (s.crash surviving).spaceUsed
      ≤ ∑ c ∈ (s.crash surviving).liveContents, s.crashLen c :=
        Finset.sum_le_sum fun c hc => (crash_file (hends c hc)).2
    _ ≤ s.crashSpace := Finset.sum_le_sum_of_subset fun c hc => (crash_file (hends c hc)).1

end FsState

end Turmoil.Fs
