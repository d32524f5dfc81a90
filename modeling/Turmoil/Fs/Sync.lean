/-
# What the sync calls do to the namespace

`sync_dir` pulls the operations that affect one directory to the front of the queue and applies
them; `sync_file` pulls the data operations of one path, and makes up an inode when the path has
none.  This module says what both leave behind, and under which conditions the kinds seen by
the running program stay as they were:

* for `sync_dir`, that no flushed operation shares a name with an earlier one that stays behind
  (`syncDir_kind`);
* for `sync_file`, that a made-up inode does not contradict what is pending at that path
  (`FreshInode`, `flushFile_kind`).
-/
import Turmoil.Fs.Content

namespace Turmoil.Fs

namespace FsState

/-! ## 1. Fields that applying an operation leaves alone -/

theorem applyOp_eq (s : FsState) (op : PendingOp) :
    ∃ files dirs links, s.applyOpToPersisted op = { s with
      persistedFiles := files, persistedDirs := dirs, persistedSymlinks := links } := by
  cases op with
  | createHardLink p target time =>
    simp only [applyOpToPersisted]
    split <;> exact ⟨_, _, _, rfl⟩
  | setPermissions p mode time =>
    simp only [applyOpToPersisted]
    split <;> exact ⟨_, _, _, rfl⟩
  | rename src dst =>
    simp only [applyOpToPersisted]
    repeat (first | exact ⟨_, _, _, rfl⟩ | split)
  | _ => exact ⟨_, _, _, rfl⟩

/-- Applying operations does not look at the queue or at the set of durable entries. -/
theorem applyOp_with (s : FsState) (op : PendingOp) (entries : IndexMap Path Unit)
    (pending : List PendingOp) :
    ({ s with syncedEntries := entries, pending := pending }).applyOpToPersisted op
      = { s.applyOpToPersisted op with syncedEntries := entries, pending := pending } := by
  cases op with
  | createHardLink p target time =>
    simp only [applyOpToPersisted]
    split <;> rfl
  | setPermissions p mode time =>
    simp only [applyOpToPersisted]
    split <;> rfl
  | rename src dst =>
    simp only [applyOpToPersisted]
    repeat (first | rfl | split)
  | _ => rfl

theorem foldl_applyOp_eq (log : List PendingOp) : ∀ s : FsState,
    ∃ files dirs links, log.foldl applyOpToPersisted s = { s with
      persistedFiles := files, persistedDirs := dirs, persistedSymlinks := links } := by
  induction log with
  | nil => exact fun s => ⟨_, _, _, rfl⟩
  | cons op log ih =>
    intro s
    obtain ⟨f, d, l, h⟩ := applyOp_eq s op
    obtain ⟨f', d', l', h'⟩ := ih (s.applyOpToPersisted op)
    exact ⟨f', d', l', by rw [List.foldl_cons, h', h]⟩

/-- The flush loop of `sync_dir` keeps its two books separately. -/
theorem foldl_flushDirOp (d : Path) (pending : List PendingOp) (log : List PendingOp) :
    ∀ (s : FsState) (entries : IndexMap Path Unit),
      log.foldl (flushDirOp d) { s with syncedEntries := entries, pending := pending }
        = { log.foldl applyOpToPersisted s with
            syncedEntries := log.foldl (syncEntry d) entries, pending := pending } := by
  induction log with
  | nil => exact fun _ _ => rfl
  | cons op log ih =>
    intro s entries
    rw [List.foldl_cons, List.foldl_cons, List.foldl_cons, ← ih]
    congr 1
    exact applyOp_with s op _ _

/-- The operations `sync_dir d` flushes, and those it keeps. -/
def dirFlush (s : FsState) (d : Path) : List PendingOp := s.pending.filter (affectsDir d)

def dirKeep (s : FsState) (d : Path) : List PendingOp :=
  s.pending.filter (fun op => !affectsDir d op)

/-- **What a successful `sync_dir` does**, up to the timestamps of the directory itself. -/
theorem syncDir_spec {s : FsState} {d : Path} (h : s.dirExists d = true) (time : Duration) :
    ∃ dirs, s.syncDir d time = ({ (s.dirFlush d).foldl applyOpToPersisted s with
        syncedEntries := (s.dirFlush d).foldl (syncEntry d) s.syncedEntries
        pending := s.dirKeep d
        persistedDirs := dirs }, .ok ())
      ∧ ∀ q, dirs.contains q
          = ((s.dirFlush d).foldl applyOpToPersisted s).persistedDirs.contains q := by
  have hfold := foldl_flushDirOp d (s.dirKeep d) (s.dirFlush d) s s.syncedEntries
  simp only [dirFlush, dirKeep] at hfold ⊢
  simp only [syncDir, h, Bool.not_true, Bool.false_eq_true, if_false]
  rw [show ({ s with pending := s.pending.filter (fun op => !affectsDir d op) } : FsState)
    = { s with syncedEntries := s.syncedEntries,
               pending := s.pending.filter (fun op => !affectsDir d op) } from rfl, hfold]
  split
  · exact ⟨_, rfl, fun q => by simp⟩
  · exact ⟨_, rfl, fun q => rfl⟩

theorem syncDir_err {s : FsState} {d : Path} (h : s.dirExists d = false) (time : Duration) :
    s.syncDir d time = (s, .error .noSuchFile) := by simp [syncDir, h]

/-! ## 2. Directories: kinds are kept -/

theorem bits_congr {s t : FsState} (hf : s.persistedFiles = t.persistedFiles)
    (hd : ∀ q, s.persistedDirs.contains q = t.persistedDirs.contains q)
    (hl : s.persistedSymlinks = t.persistedSymlinks) : s.bits = t.bits := by
  funext q
  simp [bits, hf, hd, hl]

theorem kind_congr_at {s t : FsState} {q : Path} (h : s.bits q = t.bits q) :
    s.persistedKind q = t.persistedKind q := by
  simp only [bits, Prod.mk.injEq] at h
  simp [persistedKind, h.1, h.2.1, h.2.2]

theorem kind_congr {s t : FsState} (h : s.bits = t.bits) : s.persistedKind = t.persistedKind :=
  funext fun q => kind_congr_at (congrFun h q)

theorem mapsDisjoint_congr {s t : FsState} (h : s.bits = t.bits) (hd : s.MapsDisjoint) :
    t.MapsDisjoint := by
  rw [mapsDisjoint_iff] at hd ⊢
  intro p
  rw [← h, ← kind_congr h]
  exact hd p

/-- The persisted kinds after a `sync_dir` that flushes a fitting log. -/
theorem syncDir_persistedKind {s : FsState} {d : Path} (hc : s.Coherent)
    (hex : s.dirExists d = true) (hap : kindOps.Apart (affectsDir d) s.pending)
    (time : Duration) :
    (s.syncDir d time).1.persistedKind = kindOps.replay s.persistedKind (s.dirFlush d)
      ∧ (s.syncDir d time).1.MapsDisjoint := by
  obtain ⟨dirs, heq, hdirs⟩ := syncDir_spec hex time
  obtain ⟨hv, -⟩ := hc.valid.partition _ (affectsDir d) hap
  obtain ⟨hk, hd⟩ := kind_foldl (fun _ _ => rfl) hc.disjoint hv
  have hb : (s.syncDir d time).1.bits = ((s.dirFlush d).foldl applyOpToPersisted s).bits := by
    rw [heq]
    exact bits_congr rfl hdirs rfl
  exact ⟨(kind_congr hb).trans hk, mapsDisjoint_congr hb.symm hd⟩

/-- **`sync_dir` keeps every kind**, and the state coherent, if no flushed operation shares a
name with an earlier one that stays behind. -/
theorem syncDir_kind {s : FsState} {d : Path} (hc : s.Coherent)
    (hap : kindOps.Apart (affectsDir d) s.pending) (time : Duration) :
    (s.syncDir d time).1.entryKind = s.entryKind ∧ (s.syncDir d time).1.Coherent := by
  cases hex : s.dirExists d with
  | false =>
    rw [syncDir_err hex]
    exact ⟨rfl, hc⟩
  | true =>
    obtain ⟨hk, hd⟩ := syncDir_persistedKind hc hex hap time
    obtain ⟨dirs, heq, -⟩ := syncDir_spec hex time
    have hp : (s.syncDir d time).1.pending = s.dirKeep d := by rw [heq]
    obtain ⟨-, hv⟩ := hc.valid.partition _ (affectsDir d) hap
    refine ⟨?_, ⟨hd, by rw [hk, hp]; exact hv⟩⟩
    rw [entryKind_eq_replay, entryKind_eq_replay, hk, hp]
    exact (kindOps.replay_partition (affectsDir d) hap).symm

/-! ## 3. Files: kinds are kept -/

/-- Data operations leave the kinds alone, so dropping them from a log changes nothing. -/
theorem replay_dropData (p : Path) (m : Path → Option EntryKind) (log : List PendingOp) :
    kindOps.replay m (log.filter (fun op => !isDataOf p op)) = kindOps.replay m log := by
  refine foldl_filter_skip (fun op _ h m => ?_) m
  cases op <;> first | rfl | simp [isDataOf] at h

theorem valid_dropData (p : Path) {m : Path → Option EntryKind} {log : List PendingOp}
    (hv : kindOps.Valid m log) : kindOps.Valid m (log.filter (fun op => !isDataOf p op)) := by
  induction log generalizing m with
  | nil => trivial
  | cons op log ih =>
    cases h : isDataOf p op with
    | false => rw [List.filter_cons_of_pos (by simp [h])]; exact ⟨hv.1, ih hv.2⟩
    | true =>
      rw [List.filter_cons_of_neg (by simp [h])]
      have := ih hv.2
      cases op <;> first | exact this | simp [isDataOf] at h

/-- The pending operations that may name a path at which an inode is made up. -/
def fitsInode (p : Path) : PendingOp → Prop
  | .createFile _ _ _ => True
  | .createHardLink q _ _ => q ≠ p
  | .rename src _ => src ≠ p
  | .removeFile _ => True
  | .createDir q _ _ => q ≠ p
  | .createSymlink q _ _ => q ≠ p
  | .removeDir q => q ≠ p
  | _ => True

/-- An inode made up for `p` contradicts nothing: `p` has no persisted entry, since the last
flush it has been a file or absent only, never moved away, and it was not both removed and moved
onto. -/
structure FreshInode (s : FsState) (p : Path) : Prop where
  absent : s.persistedKind p = none
  fits : ∀ op ∈ s.pending, fitsInode p op
  once : (∀ q, PendingOp.removeFile q ∈ s.pending → q ≠ p)
    ∨ (∀ src dst, PendingOp.rename src dst ∈ s.pending → dst ≠ p)

theorem kindStep_stays {p : Path} {k : EntryKind} {m : Path → Option EntryKind} {op : PendingOp}
    (hok : kindOk m op) (hm : m p = some k) (hfit : fitsInode p op)
    (hrem : ∀ q, op = .removeFile q → q ≠ p) : kindStep m op p = some k := by
  cases op with
  | createFile q time mode =>
    simp only [kindStep]
    split
    · rename_i hq
      subst hq
      rcases hok with h | h <;> rw [hm] at h <;> cases h
      rfl
    · exact hm
  | createDir q time mode => rw [kindStep, if_neg hfit, hm]
  | createSymlink q target time => rw [kindStep, if_neg hfit, hm]
  | createHardLink q target time => rw [kindStep, if_neg hfit, hm]
  | removeDir q => rw [kindStep, if_neg hfit, hm]
  | removeFile q => rw [kindStep, if_neg (hrem q rfl), hm]
  | rename src dst =>
    simp only [kindStep, if_neg (show src ≠ p from hfit)]
    split
    · -- what is moved onto the path has the kind it replaces
      rename_i hd
      subst hd
      rcases hok.2.2 with h | h
      · rw [hm] at h
        cases h
      · rw [← h, hm]
    · exact hm
  | _ => exact hm

/-- A path that is only created, linked to and moved onto keeps the kind it has. -/
theorem replay_kind_stays {p : Path} {k : EntryKind} {log : List PendingOp} :
    ∀ {m : Path → Option EntryKind}, kindOps.Valid m log → m p = some k →
      (∀ op ∈ log, fitsInode p op) → (∀ q, PendingOp.removeFile q ∈ log → q ≠ p) →
      kindOps.replay m log p = some k := by
  induction log with
  | nil => exact fun _ hm _ _ => hm
  | cons op log ih =>
    intro m hv hm hfit hrem
    refine ih hv.2 (kindStep_stays hv.1 hm (hfit op List.mem_cons_self) ?_)
      (fun o ho => hfit o (List.mem_cons_of_mem _ ho))
      (fun q hq => hrem q (List.mem_cons_of_mem _ hq))
    rintro q rfl
    exact hrem q List.mem_cons_self

/-- Making up a file where there was nothing does not disturb a log that fits it. -/
theorem replay_fresh {p : Path} {log : List PendingOp} :
    ∀ {m : Path → Option EntryKind}, kindOps.Valid m log → m p = none →
      (∀ op ∈ log, fitsInode p op) →
      ((∀ q, PendingOp.removeFile q ∈ log → q ≠ p)
        ∨ (∀ src dst, PendingOp.rename src dst ∈ log → dst ≠ p)) →
      kindOps.replay m log p = some .file →
      kindOps.replay (Function.update m p (some .file)) log = kindOps.replay m log
        ∧ kindOps.Valid (Function.update m p (some .file)) log := by
  induction log with
  | nil =>
    intro m _ hm _ _ hfile
    rw [LocalOps.replay_nil, hm] at hfile
    cases hfile
  | cons op log ih =>
    intro m hv hm hfit honce hfile
    have hop := hfit op List.mem_cons_self
    have htail : ∀ o ∈ log, fitsInode p o := fun o ho => hfit o (List.mem_cons_of_mem _ ho)
    have honce' : (∀ q, PendingOp.removeFile q ∈ log → q ≠ p)
        ∨ (∀ src dst, PendingOp.rename src dst ∈ log → dst ≠ p) :=
      honce.imp (fun h q hq => h q (List.mem_cons_of_mem _ hq))
        (fun h a b hb => h a b (List.mem_cons_of_mem _ hb))
    have hok : kindOk m op := hv.1
    have hup : ∀ q, q ≠ p → Function.update m p (some .file) q = m q :=
      fun q hq => Function.update_of_ne hq _ _
    by_cases hp : p ∈ op.names
    · -- the first operation at `p` makes a file there, with or without the inode
      suffices h : kindStep (Function.update m p (some .file)) op = kindStep m op
          ∧ kindOk (Function.update m p (some .file)) op by
        refine ⟨?_, h.2, ?_⟩
        · show kindOps.replay (kindStep _ op) log = kindOps.replay (kindStep _ op) log
          rw [h.1]
        · show kindOps.Valid (kindStep _ op) log
          rw [h.1]
          exact hv.2
      cases op with
      | createFile q time mode =>
        have hq : p = q := by simpa [PendingOp.names] using hp
        subst hq
        refine ⟨?_, Or.inr (Function.update_self _ _ _)⟩
        funext q
        by_cases hqp : p = q
        · simp [kindStep, hqp]
        · simp [kindStep, hqp, hup q (fun e => hqp e.symm)]
      | rename src dst =>
        have hsrc : src ≠ p := hop
        have hdst : dst = p := by
          simpa [PendingOp.names, Ne.symm hsrc, eq_comm] using hp
        subst hdst
        obtain ⟨hne, hns, -⟩ := hok
        have hrem : ∀ q, PendingOp.removeFile q ∈ log → q ≠ dst := by
          rcases honce' with h | h
          · exact h
          · rcases honce with h' | h'
            · exact fun q hq => h' q (List.mem_cons_of_mem _ hq)
            · exact absurd rfl (h' src dst List.mem_cons_self)
        -- what was moved onto `p` is still there at the end, and that is a file
        obtain ⟨k, hk⟩ := Option.ne_none_iff_exists'.mp hns
        have hstay := replay_kind_stays (k := k) hv.2 (p := dst)
          (by simp [kindStep, hne, hk]) htail hrem
        have hkf : k = .file := by
          have := hfile.symm.trans hstay
          simpa using this.symm
        subst hkf
        refine ⟨?_, hne, ?_, ?_⟩
        · funext q
          by_cases hqs : src = q
          · simp [kindStep, hqs]
          · by_cases hqd : dst = q
            · subst hqd
              simp [kindStep, hne]
            · simp [kindStep, hqs, hqd, hup q (fun e => hqd e.symm)]
        · rw [hup src hsrc]
          exact hns
        · rw [hup src hsrc, Function.update_self, hk]
          exact Or.inr rfl
      | createHardLink q target time =>
        have hq : q ≠ p := hop
        have ht : target = p := by
          simpa [PendingOp.names, Ne.symm hq, eq_comm] using hp
        have htarget : m target = some .file := hok.2
        rw [ht, hm] at htarget
        cases htarget
      | removeFile q =>
        have hq : p = q := by simpa [PendingOp.names] using hp
        subst hq
        rcases hok with h | h <;> rw [hm] at h <;> cases h
      | createDir q time mode => exact absurd (List.mem_singleton.mp hp).symm hop
      | createSymlink q target time => exact absurd (List.mem_singleton.mp hp).symm hop
      | removeDir q => exact absurd (List.mem_singleton.mp hp).symm hop
      | _ => cases hp
    · have hagree : ∀ q ∈ op.names, Function.update m p (some .file) q = m q :=
        fun q hq => hup q (fun e => hp (e ▸ hq))
      have hstep : kindStep (Function.update m p (some .file)) op
          = Function.update (kindStep m op) p (some .file) := by
        funext q
        by_cases hq : q = p
        · subst hq
          rw [Function.update_self]
          exact (kindOps.frame _ op q hp).trans (Function.update_self _ _ _)
        · rw [Function.update_of_ne hq]
          exact kindOps.step_agree hagree (hup q hq)
      have hm' : kindStep m op p = none := (kindOps.frame m op p hp).trans hm
      obtain ⟨h1, h2⟩ := ih hv.2 hm' htail honce' hfile
      refine ⟨?_, kindOps.ok_congr _ _ op (fun q hq => (hagree q hq).symm) hok, ?_⟩
      · rw [LocalOps.replay_cons, LocalOps.replay_cons, kindOps_step, hstep]
        exact h1
      · show kindOps.Valid (kindStep _ op) log
        rw [hstep]
        exact h2

/-- The condition on `sync_file p`: the inode is there, or making one up is harmless. -/
def InodeFits (s : FsState) (p : Path) : Prop :=
  s.persistedKind p = some .file ∨ s.FreshInode p

/-- **`sync_file` keeps every kind**, and the state coherent, if the inode fits. -/
theorem flushFile_kind {s : FsState} {p : Path} (hc : s.Coherent)
    (hfit : s.fileExists p = true → s.InodeFits p) :
    (s.flushFile p).1.entryKind = s.entryKind ∧ (s.flushFile p).1.Coherent := by
  cases hex : s.fileExists p with
  | false =>
    rw [flushFile_err hex]
    exact ⟨rfl, hc⟩
  | true =>
    obtain ⟨files, f, heq, hf, -, hother⟩ := flushFile_spec hex
    -- the file map gained at most `p`
    have hbits : ∀ q, (s.flushFile p).1.bits q
        = bitsOf (Function.update s.persistedKind p (some .file) q) := by
      intro q
      have hq := mapsDisjoint_iff.mp hc.disjoint q
      rw [heq]
      by_cases hqp : q = p
      · subst hqp
        have hfile : files.contains q = true := IndexMap.contains_iff.mpr ⟨f, hf⟩
        rcases hfit hex with h | h
        · rw [h] at hq
          simp_all [bits, bitsOf]
        · rw [h.absent] at hq
          simp_all [bits, bitsOf]
      · rw [Function.update_of_ne hqp, ← hq]
        simp [bits, IndexMap.contains, hother q hqp]
    obtain ⟨hk, hd⟩ := kind_of_bits hbits
    have hpend : (s.flushFile p).1.pending = s.pending.filter (fun op => !isDataOf p op) := by
      rw [heq]
    have hmain : kindOps.replay (Function.update s.persistedKind p (some .file)) s.pending
          = kindOps.replay s.persistedKind s.pending
        ∧ kindOps.Valid (Function.update s.persistedKind p (some .file)) s.pending := by
      rcases hfit hex with h | h
      · rw [← h, Function.update_eq_self]
        exact ⟨rfl, hc.valid⟩
      · refine replay_fresh hc.valid h.absent h.fits h.once ?_
        rw [← entryKind_eq_replay]
        exact fileExists_iff.mp hex
    refine ⟨?_, ⟨hd, by rw [hk, hpend]; exact valid_dropData p hmain.2⟩⟩
    rw [entryKind_eq_replay, entryKind_eq_replay, hk, hpend, replay_dropData, hmain.1]

end FsState

end Turmoil.Fs
