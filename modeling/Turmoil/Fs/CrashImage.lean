/-
# The exact crash image

Histories without renames, hard links and removals are simple enough to say exactly what a
crash leaves behind, from the list of calls and their outcomes alone:

* a file or a symlink that was there just before the crash is there afterwards iff some
  `sync_dir` on its parent succeeded since it was created; a directory also survives through a
  `sync_dir` on itself;
* the bytes of a surviving file are the fold of the writes and truncations that a successful
  sync of the file followed before the next crash.

The two books are independent: `sync_file` may come before or after `sync_dir`, an inode may be
stored for a name that is not durable yet, and a crash in between drops either.  `Image` ties
the persisted maps, the durable entries and the rest of the queue to the calls so far, and is
kept by every call (`Image.step`).
-/
import Turmoil.Fs.Trace

namespace Turmoil.Fs

open Buffer

/-! ## 1. Queues of creations and data -/

/-- The kind a creation makes at its path; nothing else is a creation here. -/
def PendingOp.creation : PendingOp → Option (Path × EntryKind)
  | .createFile p _ _ => some (p, .file)
  | .createDir p _ _ => some (p, .directory)
  | .createSymlink p _ _ => some (p, .symlink)
  | _ => none

/-- Creations and data operations only. -/
def PendingOp.isPlain : PendingOp → Bool
  | .createFile .. | .createDir .. | .createSymlink .. | .write .. | .setLen .. => true
  | _ => false

/-- A plain operation that names a path creates it. -/
theorem creation_of_mem_names {op : PendingOp} (hp : op.isPlain = true) {q : Path}
    (hq : q ∈ op.names) : ∃ k, op.creation = some (q, k) := by
  cases op <;> simp_all [PendingOp.isPlain, PendingOp.names, PendingOp.creation]

theorem names_of_creation {op : PendingOp} {q : Path} {k : EntryKind}
    (h : op.creation = some (q, k)) : op.names = [q] := by
  cases op <;> simp_all [PendingOp.names, PendingOp.creation]

theorem kindStep_creation {op : PendingOp} {q : Path} {k : EntryKind}
    (h : op.creation = some (q, k)) (m : Path → Option EntryKind) : kindStep m op q = some k := by
  cases op <;> simp_all [kindStep, PendingOp.creation]

/-- No two operations of the queue name the same path. -/
def NamesDistinct (log : List PendingOp) : Prop :=
  log.Pairwise fun a b => ∀ k ∈ b.names, k ∉ a.names

theorem NamesDistinct.apart {log : List PendingOp} (h : NamesDistinct log)
    (p : PendingOp → Bool) : kindOps.Apart p log := h.imp fun hab _ _ => hab

/-- Two operations of such a queue that name one path are the same one. -/
theorem NamesDistinct.eq_of_mem {log : List PendingOp} (h : NamesDistinct log) {a b : PendingOp}
    (ha : a ∈ log) (hb : b ∈ log) {q : Path} (hqa : q ∈ a.names) (hqb : q ∈ b.names) : a = b := by
  induction log with
  | nil => cases ha
  | cons o log ih =>
    obtain ⟨ho, htail⟩ := List.pairwise_cons.mp h
    rcases List.mem_cons.mp ha with rfl | ha' <;> rcases List.mem_cons.mp hb with rfl | hb'
    · rfl
    · exact absurd hqa (ho b hb' q hqb)
    · exact absurd hqb (ho a ha' q hqa)
    · exact ih htail ha' hb'

theorem kindStep_plain_ne_none {op : PendingOp} (hp : op.isPlain = true) {q : Path}
    {m : Path → Option EntryKind} (hm : m q ≠ none) : kindStep m op q ≠ none := by
  cases op with
  | createFile p time mode => simp only [kindStep]; split <;> simp [hm]
  | createDir p time mode => simp only [kindStep]; split <;> simp [hm]
  | createSymlink p target time => simp only [kindStep]; split <;> simp [hm]
  | write p offset data time => exact hm
  | setLen p len time => exact hm
  | setPermissions p mode time => exact hm
  | _ => cases hp

/-- Plain operations never remove anything. -/
theorem replay_plain_ne_none {log : List PendingOp} (hp : ∀ op ∈ log, op.isPlain = true)
    {q : Path} : ∀ {m : Path → Option EntryKind}, m q ≠ none → kindOps.replay m log q ≠ none := by
  induction log with
  | nil => exact fun h => h
  | cons op log ih =>
    intro m hm
    exact ih (fun o ho => hp o (List.mem_cons_of_mem _ ho))
      (kindStep_plain_ne_none (hp op List.mem_cons_self) hm)

/-- The one creation of a path in the queue decides what is there. -/
theorem replay_creation {log : List PendingOp} (hd : NamesDistinct log) {op : PendingOp}
    (hop : op ∈ log) {q : Path} {k : EntryKind} (hc : op.creation = some (q, k)) :
    ∀ m : Path → Option EntryKind, kindOps.replay m log q = some k := by
  have hq : q ∈ op.names := by rw [names_of_creation hc]; exact List.mem_singleton.mpr rfl
  induction log with
  | nil => cases hop
  | cons o log ih =>
    intro m
    obtain ⟨ho, htail⟩ := List.pairwise_cons.mp hd
    rcases List.mem_cons.mp hop with rfl | hop'
    · rw [LocalOps.replay_cons, kindOps.replay_frame (fun o' ho' h => ho o' ho' q h hq)]
      exact kindStep_creation hc m
    · exact ih htail hop' _

/-- A plain operation fits an inode at a path where it creates nothing but a file. -/
theorem fitsInode_of_plain {op : PendingOp} {p : Path} (hpl : op.isPlain = true)
    (hcr : ∀ k, op.creation = some (p, k) → k = .file) : FsState.fitsInode p op := by
  cases op with
  | createDir q time mode =>
    rintro rfl
    cases hcr .directory rfl
  | createSymlink q target time =>
    rintro rfl
    cases hcr .symlink rfl
  | createFile q time mode => trivial
  | write q offset data time => trivial
  | setLen q len time => trivial
  | setPermissions q mode time => trivial
  | _ => cases hpl

/-- A creation leaves every file's stored bytes alone. -/
theorem keepsBytes_creation {op : PendingOp} {q : Path} {k : EntryKind}
    (h : op.creation = some (q, k)) (c : Path → List UInt8) : FsState.keepsBytes c op := by
  cases op <;> simp_all [PendingOp.creation, FsState.keepsBytes]

theorem syncEntry_creation {d r : Path} {op : PendingOp} (haff : FsState.affectsDir d op = true)
    (hpl : op.isPlain = true) (entries : IndexMap Path Unit) :
    (FsState.syncEntry d entries op).contains r = true
      ↔ entries.contains r = true ∨ r ∈ op.names := by
  cases op with
  | createFile p time mode =>
    simp [FsState.syncEntry, (by simpa [FsState.affectsDir] using haff : p.parent = some d),
      PendingOp.names, or_comm]
  | createDir p time mode =>
    simp [FsState.syncEntry,
      (by simpa [FsState.affectsDir] using haff : p = d ∨ p.parent = some d),
      PendingOp.names, or_comm]
  | createSymlink p target time =>
    simp [FsState.syncEntry, (by simpa [FsState.affectsDir] using haff : p.parent = some d),
      PendingOp.names, or_comm]
  | _ => first | cases haff | cases hpl

/-- The durable entries after flushing creations: the old ones and the flushed names. -/
theorem foldl_syncEntry_creation {d : Path} {log : List PendingOp}
    (h : ∀ op ∈ log, FsState.affectsDir d op = true ∧ op.isPlain = true) (r : Path) :
    ∀ entries : IndexMap Path Unit, (log.foldl (FsState.syncEntry d) entries).contains r = true
      ↔ entries.contains r = true ∨ ∃ op ∈ log, r ∈ op.names := by
  induction log with
  | nil => simp
  | cons op log ih =>
    intro entries
    obtain ⟨haff, hpl⟩ := h op List.mem_cons_self
    rw [List.foldl_cons, ih (fun o ho => h o (List.mem_cons_of_mem _ ho)),
      syncEntry_creation haff hpl]
    simp [or_assoc]

/-! ## 2. The invariant -/

/-- What holds of the state alone. -/
structure PlainState (s : FsState) : Prop where
  blocks : s.blockSize = none
  coherent : s.Coherent
  plain : ∀ op ∈ s.pending, op.isPlain = true
  distinct : NamesDistinct s.pending
  entry : ∀ p, s.syncedEntries.contains p = true →
    s.persistedKind p ≠ none ∧ ∀ op ∈ s.pending, p ∉ op.names
  /-- An inode without a durable entry is a file whose creation is pending. -/
  orphan : ∀ p, s.persistedKind p ≠ none → s.syncedEntries.contains p = false →
    s.persistedKind p = some .file ∧ ∃ time mode, PendingOp.createFile p time mode ∈ s.pending
  data : ∀ p, ∀ op ∈ s.pending, FsState.isDataOf p op = true → s.entryKind p = some .file
  root : s.syncedEntries.contains Path.root = true ∧ s.persistedKind Path.root = some .directory

/-- What ties the state to the calls so far. -/
structure Image (s : FsState) (evs : List Event) : Prop extends PlainState s where
  synced : ∀ p k, p ≠ Path.root → s.entryKind p = some k →
    s.syncedEntries.contains p = entrySynced p (decide (k = .directory)) evs
  stored : ∀ p, s.entryKind p = some .file → s.storedContent p = durableContent p evs
  queued : ∀ p, s.entryKind p = some .file → ∀ c,
    (s.pending.filter (FsState.isDataOf p)).foldl FsState.dataStep c
      = (undecidedOps p (sinceCreation p evs)).foldl FsOp.onContent c

namespace PlainState

variable {s : FsState} (h : PlainState s)

include h

/-- A creation in the queue decides what is at its path. -/
theorem kind_of_creation {op : PendingOp} (hop : op ∈ s.pending) {q : Path} {k : EntryKind}
    (hc : op.creation = some (q, k)) : s.entryKind q = some k := by
  rw [FsState.entryKind_eq_replay]
  exact replay_creation h.distinct hop hc _

theorem ne_none_of_persisted {q : Path} (hq : s.persistedKind q ≠ none) : s.entryKind q ≠ none := by
  rw [FsState.entryKind_eq_replay]
  exact replay_plain_ne_none h.plain hq

/-- At a durable entry, what is persisted is what is there. -/
theorem kind_of_entry {q : Path} (hq : s.syncedEntries.contains q = true) :
    s.entryKind q = s.persistedKind q :=
  FsState.entryKind_of_untouched (h.entry q hq).2

theorem entry_false_of_none {q : Path} (hq : s.entryKind q = none) :
    s.syncedEntries.contains q = false := by
  by_contra hc
  have hc : s.syncedEntries.contains q = true := by simpa using hc
  exact (h.entry q hc).1 ((h.kind_of_entry hc).symm.trans hq)

theorem persisted_none_of_none {q : Path} (hq : s.entryKind q = none) : s.persistedKind q = none := by
  by_contra hc
  exact h.ne_none_of_persisted hc hq

/-- What is there without a durable entry has its creation in the queue. -/
theorem creation_of_unsynced {q : Path} {k : EntryKind} (hk : s.entryKind q = some k)
    (hq : s.syncedEntries.contains q = false) :
    ∃ op ∈ s.pending, op.creation = some (q, k) := by
  have hex : ∃ op ∈ s.pending, q ∈ op.names := by
    by_contra hno
    have hun : ∀ op ∈ s.pending, q ∉ op.names := fun op hop hm => hno ⟨op, hop, hm⟩
    have hp : s.persistedKind q ≠ none := by
      rw [← FsState.entryKind_of_untouched hun, hk]
      simp
    obtain ⟨-, time, mode, hmem⟩ := h.orphan q hp hq
    exact hun _ hmem (by simp [PendingOp.names])
  obtain ⟨op, hop, hm⟩ := hex
  obtain ⟨k', hc⟩ := creation_of_mem_names (h.plain op hop) hm
  have : some k' = some k := (h.kind_of_creation hop hc).symm.trans hk
  cases this
  exact ⟨op, hop, hc⟩

/-- No data is queued for what is not a file. -/
theorem no_data {q : Path} (hq : s.entryKind q ≠ some .file) :
    s.pending.filter (FsState.isDataOf q) = [] := by
  rw [List.filter_eq_nil_iff]
  exact fun op hop hd => hq (h.data q op hop hd)

/-- A creation where nothing is keeps the state plain. -/
theorem push_creation {op : PendingOp} {p : Path} {k : EntryKind}
    (hc : op.creation = some (p, k)) (hp : s.entryKind p = none) : PlainState (s.push op) := by
  have hnames := names_of_creation hc
  have hplain : op.isPlain = true := by
    cases op <;> simp_all [PendingOp.creation, PendingOp.isPlain]
  have hentry := h.entry_false_of_none hp
  have hfree : ∀ o ∈ s.pending, p ∉ o.names := by
    intro o ho hm
    obtain ⟨k', hc'⟩ := creation_of_mem_names (h.plain o ho) hm
    rw [h.kind_of_creation ho hc'] at hp
    cases hp
  have hkind : ∀ q, q ≠ p → (s.push op).entryKind q = s.entryKind q := by
    intro q hq
    rw [FsState.entryKind_push]
    exact kindOps.frame _ op q (by simpa [hnames] using hq)
  have hroot : Path.root ≠ p := by
    intro e
    rw [← e, h.root.1] at hentry
    cases hentry
  exact {
    blocks := h.blocks
    coherent := h.coherent.push (by
      cases op <;> simp_all [PendingOp.creation, kindOk])
    plain := by
      intro o ho
      rcases List.mem_append.mp ho with ho | ho
      · exact h.plain o ho
      · rw [List.mem_singleton.mp ho]
        exact hplain
    distinct := by
      refine List.pairwise_append.mpr ⟨h.distinct, List.pairwise_singleton _ _, ?_⟩
      intro a ha b hb q hq
      rw [List.mem_singleton.mp hb, hnames, List.mem_singleton] at hq
      rw [hq]
      exact hfree a ha
    entry := by
      intro q hq
      refine ⟨(h.entry q hq).1, fun o ho => ?_⟩
      rcases List.mem_append.mp ho with ho | ho
      · exact (h.entry q hq).2 o ho
      · rw [List.mem_singleton.mp ho, hnames, List.mem_singleton]
        rintro rfl
        have : s.syncedEntries.contains q = true := hq
        rw [hentry] at this
        cases this
    orphan := by
      intro q hq hs
      obtain ⟨hf, time, mode, hm⟩ := h.orphan q hq hs
      exact ⟨hf, time, mode, List.mem_append_left _ hm⟩
    data := by
      intro q o ho hd
      rcases List.mem_append.mp ho with ho | ho
      · have hf := h.data q o ho hd
        rwa [hkind q (fun e => by rw [e, hp] at hf; cases hf)]
      · rw [List.mem_singleton.mp ho] at hd
        cases op <;> simp_all [PendingOp.creation, FsState.isDataOf]
    root := h.root }

/-- A data operation on a file keeps the state plain, and every kind. -/
theorem push_data {op : PendingOp} {p : Path} (hd : FsState.isDataOf p op = true)
    (hp : s.entryKind p = some .file) (cache : Option PageCache) :
    PlainState { s with pending := s.pending ++ [op], pageCache := cache }
      ∧ ∀ q, ({ s with pending := s.pending ++ [op], pageCache := cache } : FsState).entryKind q
          = s.entryKind q := by
  have hnames : op.names = [] := by
    cases op <;> simp_all [FsState.isDataOf, PendingOp.names]
  have hkind : ∀ q, ({ s with pending := s.pending ++ [op], pageCache := cache }
      : FsState).entryKind q = s.entryKind q := by
    intro q
    show (s.push op).entryKind q = _
    rw [FsState.entryKind_push]
    exact kindOps.frame _ op q (by simp [hnames])
  have hpath : ∀ q, FsState.isDataOf q op = true → q = p := by
    intro q hq
    cases op <;> simp_all [FsState.isDataOf]
  have hok : kindOk s.entryKind op := by
    cases op <;> simp_all [FsState.isDataOf, kindOk]
  refine ⟨{
    blocks := h.blocks
    coherent := ⟨(h.coherent.push hok).disjoint, (h.coherent.push hok).valid⟩
    plain := ?_
    distinct := ?_
    entry := ?_
    orphan := ?_
    data := ?_
    root := h.root }, hkind⟩
  · intro o ho
    rcases List.mem_append.mp ho with ho | ho
    · exact h.plain o ho
    · rw [List.mem_singleton.mp ho]
      cases op <;> simp_all [FsState.isDataOf, PendingOp.isPlain]
  · refine List.pairwise_append.mpr ⟨h.distinct, List.pairwise_singleton _ _, ?_⟩
    intro a ha b hb q hq
    rw [List.mem_singleton.mp hb, hnames] at hq
    cases hq
  · intro q hq
    refine ⟨(h.entry q hq).1, fun o ho => ?_⟩
    rcases List.mem_append.mp ho with ho | ho
    · exact (h.entry q hq).2 o ho
    · rw [List.mem_singleton.mp ho, hnames]
      exact List.not_mem_nil
  · intro q hq hs
    obtain ⟨hf, time, mode, hm⟩ := h.orphan q hq hs
    exact ⟨hf, time, mode, List.mem_append_left _ hm⟩
  · intro q o ho hdo
    rw [hkind]
    rcases List.mem_append.mp ho with ho | ho
    · exact h.data q o ho hdo
    · rw [List.mem_singleton.mp ho] at hdo
      rw [hpath q hdo]
      exact hp

/-- The inode that `sync_file` needs fits. -/
theorem inodeFits {p : Path} (hp : s.entryKind p = some .file) : s.InodeFits p := by
  have hcreate : ∀ op ∈ s.pending, ∀ k, op.creation = some (p, k) → k = .file := by
    intro op hop k hc
    have := (h.kind_of_creation hop hc).symm.trans hp
    simpa using this
  by_cases hk : s.persistedKind p = none
  · refine Or.inr ⟨hk, ?_, Or.inl ?_⟩
    · intro op hop
      exact fitsInode_of_plain (h.plain op hop) (hcreate op hop)
    · intro q hq
      have := h.plain _ hq
      simp [PendingOp.isPlain] at this
  · left
    cases hs : s.syncedEntries.contains p with
    | true => rw [← hp, h.kind_of_entry hs]
    | false => exact (h.orphan p hk hs).1

/-- A sync of a file keeps the state plain. -/
theorem flushFile {p : Path} (hp : s.entryKind p = some .file) :
    PlainState (s.flushFile p).1 := by
  have hex := FsState.fileExists_iff.mpr hp
  obtain ⟨hkind, hcoh⟩ := FsState.flushFile_kind h.coherent (fun _ => h.inodeFits hp)
  obtain ⟨files, f, heq, hf, -, hother⟩ := FsState.flushFile_spec hex
  have hpend : ∀ op, op ∈ (s.flushFile p).1.pending → op ∈ s.pending := by
    rw [heq]
    exact fun op hop => (List.mem_filter.mp hop).1
  -- the persisted kinds gained at most the file `p`
  have hpk : ∀ q, q ≠ p → (s.flushFile p).1.persistedKind q = s.persistedKind q := by
    intro q hq
    rw [heq]
    exact FsState.kind_congr_at (by simp [FsState.bits, IndexMap.contains, hother q hq])
  have hpp : (s.flushFile p).1.persistedKind p = some .file := by
    rw [FsState.persistedKind_eq_file, heq]
    exact IndexMap.contains_iff.mpr ⟨f, hf⟩
  have hE : (s.flushFile p).1.syncedEntries = s.syncedEntries := by rw [heq]
  have hroot : Path.root ≠ p := by
    rintro rfl
    have := (h.kind_of_entry h.root.1).symm.trans hp
    rw [h.root.2] at this
    cases this
  refine ⟨by rw [heq]; exact h.blocks, hcoh, fun op hop => h.plain op (hpend op hop), ?_, ?_, ?_,
    ?_, ?_⟩
  · rw [heq]
    exact h.distinct.filter _
  · intro q hq
    rw [hE] at hq
    refine ⟨?_, fun op hop => (h.entry q hq).2 op (hpend op hop)⟩
    by_cases hqp : q = p
    · rw [hqp, hpp]
      simp
    · rw [hpk q hqp]
      exact (h.entry q hq).1
  · intro q hq hs
    rw [hE] at hs
    have hkeep : ∀ time mode, PendingOp.createFile q time mode ∈ s.pending →
        PendingOp.createFile q time mode ∈ (s.flushFile p).1.pending := by
      intro time mode hm
      rw [heq]
      exact List.mem_filter.mpr ⟨hm, rfl⟩
    by_cases hqp : q = p
    · subst hqp
      obtain ⟨op, hop, hc⟩ := h.creation_of_unsynced hp hs
      cases op with
      | createFile r time mode =>
        have hr : r = q := by simpa [PendingOp.creation] using hc
        subst hr
        exact ⟨hpp, time, mode, hkeep time mode hop⟩
      | _ => simp [PendingOp.creation] at hc
    · rw [hpk q hqp] at hq ⊢
      obtain ⟨hfile, time, mode, hm⟩ := h.orphan q hq hs
      exact ⟨hfile, time, mode, hkeep time mode hm⟩
  · intro q op hop hd
    rw [hkind]
    exact h.data q op (hpend op hop) hd
  · rw [hE, hpk _ hroot]
    exact h.root

/-- The operations a `sync_dir` flushes are creations. -/
theorem dirFlush_creation {d : Path} {op : PendingOp} (hop : op ∈ s.dirFlush d) :
    op ∈ s.pending ∧ FsState.affectsDir d op = true ∧ ∃ q k, op.creation = some (q, k) := by
  obtain ⟨hm, ha⟩ := List.mem_filter.mp hop
  have hpl := h.plain op hm
  refine ⟨hm, ha, ?_⟩
  cases op <;> simp_all [PendingOp.isPlain, FsState.affectsDir, PendingOp.creation]

/-- The durable entries after a `sync_dir`. -/
theorem syncDir_entries {d : Path} (hex : s.dirExists d = true) (time : Duration) (q : Path) :
    (s.syncDir d time).1.syncedEntries.contains q = true
      ↔ s.syncedEntries.contains q = true ∨ ∃ op ∈ s.dirFlush d, q ∈ op.names := by
  obtain ⟨dirs, heq, -⟩ := FsState.syncDir_spec hex time
  rw [heq]
  refine foldl_syncEntry_creation (fun op hop => ?_) q s.syncedEntries
  obtain ⟨hm, ha, -⟩ := h.dirFlush_creation hop
  exact ⟨ha, h.plain op hm⟩

/-- A successful `sync_dir` keeps the state plain. -/
theorem syncDir {d : Path} (hex : s.dirExists d = true) (time : Duration) :
    PlainState (s.syncDir d time).1 := by
  have hap := h.distinct.apart (FsState.affectsDir d)
  obtain ⟨hkind, hcoh⟩ := FsState.syncDir_kind h.coherent hap time
  obtain ⟨hpk, -⟩ := FsState.syncDir_persistedKind h.coherent hex hap time
  obtain ⟨dirs, heq, -⟩ := FsState.syncDir_spec hex time
  have hE := h.syncDir_entries hex time
  have hdist : NamesDistinct (s.dirFlush d) := h.distinct.filter _
  have hpend : ∀ op, op ∈ (s.syncDir d time).1.pending
      ↔ op ∈ s.pending ∧ FsState.affectsDir d op = false := by
    intro op
    rw [heq]
    simp [FsState.dirKeep, List.mem_filter]
  have hplain : ∀ op ∈ s.dirFlush d, op.isPlain = true :=
    fun op hop => h.plain op (h.dirFlush_creation hop).1
  have hblocks : (s.syncDir d time).1.blockSize = none := by
    rw [heq]
    obtain ⟨files, dirs', links, hf⟩ := FsState.foldl_applyOp_eq (s.dirFlush d) s
    rw [hf]
    exact h.blocks
  refine ⟨hblocks, hcoh, fun op hop => h.plain op ((hpend op).mp hop).1, ?_, ?_, ?_, ?_, ?_⟩
  · rw [heq]
    exact h.distinct.filter _
  · intro q hq
    rcases (hE q).mp hq with hold | ⟨op, hop, hm⟩
    · obtain ⟨hne, hfree⟩ := h.entry q hold
      refine ⟨?_, fun o ho => hfree o ((hpend o).mp ho).1⟩
      rw [hpk]
      exact replay_plain_ne_none hplain hne
    · obtain ⟨hmem, haff, r, k, hc⟩ := h.dirFlush_creation hop
      have hqr : q = r := by simpa [names_of_creation hc] using hm
      subst hqr
      refine ⟨?_, fun o ho hmo => ?_⟩
      · rw [hpk, replay_creation hdist hop hc]
        simp
      · -- the creation was flushed, and it is the only operation at `q`
        obtain ⟨ho1, ho2⟩ := (hpend o).mp ho
        rw [h.distinct.eq_of_mem ho1 hmem hmo hm, haff] at ho2
        cases ho2
  · intro q hq hs
    have hs' : ¬ (s.syncDir d time).1.syncedEntries.contains q = true := by simp [hs]
    rw [hE] at hs'
    have hfree : ∀ op ∈ s.dirFlush d, q ∉ op.names := fun op hop hm => hs' (Or.inr ⟨op, hop, hm⟩)
    have hold : (s.syncDir d time).1.persistedKind q = s.persistedKind q := by
      rw [hpk]
      exact kindOps.replay_frame hfree
    rw [hold] at hq ⊢
    obtain ⟨hfile, t, mode, hm⟩ := h.orphan q hq (by
      simpa using fun e => hs' (Or.inl e))
    refine ⟨hfile, t, mode, (hpend _).mpr ⟨hm, ?_⟩⟩
    by_contra hc
    have haff : FsState.affectsDir d (.createFile q t mode) = true := by simpa using hc
    exact hfree _ (List.mem_filter.mpr ⟨hm, haff⟩) (by simp [PendingOp.names])
  · intro q op hop hd
    rw [hkind]
    exact h.data q op ((hpend op).mp hop).1 hd
  · refine ⟨(hE _).mpr (Or.inl h.root.1), ?_⟩
    rw [hpk, kindOps.replay_frame (fun op hop => ?_)]
    · exact h.root.2
    · exact (h.entry _ h.root.1).2 op (h.dirFlush_creation hop).1

/-- What a crash leaves of the kinds. -/
theorem crash_kind (surviving : Nat → Nat) (q : Path) :
    (s.crash surviving).entryKind q
      = if s.syncedEntries.contains q then s.entryKind q else none := by
  have hcrash : (s.crash surviving).entryKind q
      = if s.syncedEntries.contains q then s.persistedKind q else none := by
    simp only [FsState.crash, h.blocks, FsState.entryKind, List.reverse_nil,
      FsState.entryKindFrom, FsState.persistedKind, IndexMap.contains_retainKeys]
    cases s.syncedEntries.contains q <;> simp
  rw [hcrash]
  split
  · rename_i hq
    exact (h.kind_of_entry hq).symm
  · rfl

/-- A crash keeps the state plain. -/
theorem crash (surviving : Nat → Nat) : PlainState (s.crash surviving) := by
  have hpk : ∀ q, (s.crash surviving).persistedKind q
      = if s.syncedEntries.contains q then s.persistedKind q else none := by
    intro q
    simp only [FsState.crash, h.blocks, FsState.persistedKind, IndexMap.contains_retainKeys]
    cases s.syncedEntries.contains q <;> simp
  have hE : (s.crash surviving).syncedEntries = s.syncedEntries := by
    simp [FsState.crash, h.blocks]
  have hpend : (s.crash surviving).pending = [] := by simp [FsState.crash]
  have hdisj : (s.crash surviving).MapsDisjoint := by
    intro q
    have := h.coherent.disjoint q
    simp only [FsState.crash, h.blocks, IndexMap.contains_retainKeys]
    cases s.syncedEntries.contains q with
    | false => simp
    | true => simpa using this
  refine ⟨by simp [FsState.crash, h.blocks], ⟨hdisj, by rw [hpend]; trivial⟩, ?_, ?_, ?_, ?_, ?_, ?_⟩
  · simp [hpend]
  · rw [hpend]
    exact List.Pairwise.nil
  · intro q hq
    rw [hE] at hq
    rw [hpk, if_pos hq, hpend]
    exact ⟨(h.entry q hq).1, fun op hop => by cases hop⟩
  · intro q hq hs
    rw [hE] at hs
    rw [hpk, hs] at hq
    simp at hq
  · simp [hpend]
  · rw [hE, hpk, if_pos h.root.1]
    exact h.root

end PlainState

/-! ## 3. Every call keeps the invariant -/

namespace Image

variable {s : FsState} {evs : List Event} (h : Image s evs)

include h

/-- A call that changes nothing and is about no path. -/
theorem idle {e : Event} (he : ∀ q, e.Foreign q) : Image s (evs ++ [e]) where
  toPlainState := h.toPlainState
  synced := by
    intro p k hp hk
    rw [((he p).books evs).1]
    exact h.synced p k hp hk
  stored := by
    intro p hp
    rw [((he p).books evs).2.1]
    exact h.stored p hp
  queued := by
    intro p hp
    rw [((he p).books evs).2.2]
    exact h.queued p hp

/-- A successful creation. -/
theorem create {op : PendingOp} {e : Event} {p : Path} {k : EntryKind}
    (hc : op.creation = some (p, k)) (hp : s.entryKind p = none) (he : e.creates p = true)
    (hother : ∀ q, q ≠ p → e.Foreign q) : Image (s.push op) (evs ++ [e]) := by
  have hkp : (s.push op).entryKind p = some k := by
    rw [FsState.entryKind_push]
    exact kindStep_creation hc _
  have hkq : ∀ q, q ≠ p → (s.push op).entryKind q = s.entryKind q := by
    intro q hq
    rw [FsState.entryKind_push]
    exact kindOps.frame _ op q (by simpa [names_of_creation hc] using hq)
  have hdata : ∀ q, (s.push op).pending.filter (FsState.isDataOf q)
      = s.pending.filter (FsState.isDataOf q) := by
    intro q
    have : FsState.isDataOf q op = false := by
      cases op <;> simp_all [PendingOp.creation, FsState.isDataOf]
    simp [FsState.push, List.filter_append, this]
  obtain ⟨hb1, hb2, hb3⟩ := books_of_creates he evs
  refine ⟨h.push_creation hc hp, ?_, ?_, ?_⟩
  · intro q k' hq hk'
    by_cases hqp : q = p
    · rw [hqp, hb1]
      exact h.entry_false_of_none hp
    · rw [((hother q hqp).books evs).1]
      exact h.synced q k' hq (hkq q hqp ▸ hk')
  · intro q hq
    by_cases hqp : q = p
    · subst hqp
      have hnone := (FsState.persistedKind_eq_none.mp (h.persisted_none_of_none hp)).1
      rw [hb2]
      show s.storedContent q = []
      simp [FsState.storedContent, IndexMap.contains_eq_false.mp hnone]
    · rw [((hother q hqp).books evs).2.1]
      exact h.stored q (hkq q hqp ▸ hq)
  · intro q hq c
    rw [hdata]
    by_cases hqp : q = p
    · rw [hqp, hb3, h.no_data (by rw [hp]; simp)]
      rfl
    · rw [((hother q hqp).books evs).2.2]
      exact h.queued q (hkq q hqp ▸ hq) c

/-- A write or a `set_len`; `ops` is what it queues. -/
theorem write (ops : List PendingOp) {e : Event} {p : Path} (cache : Option PageCache)
    (hp : s.entryKind p = some .file) (hops : ops = [] ∨ ∃ op, ops = [op] ∧ FsState.isDataOf p op)
    (hsame : ∀ c, ops.foldl FsState.dataStep c = FsOp.onContent c e.op)
    (he : e.dataTo p = true) (hother : ∀ q, q ≠ p → e.Foreign q)
    (hself : e.creates p = false ∧ (∀ b, e.syncsEntry p b = false) ∧ e.syncsData p = false
      ∧ e.isCrash = false) :
    Image { s with pending := s.pending ++ ops, pageCache := cache } (evs ++ [e]) := by
  obtain ⟨hs1, hs2, hs3, hs4⟩ := hself
  obtain ⟨hplain, hkind⟩ : PlainState { s with pending := s.pending ++ ops, pageCache := cache }
      ∧ ∀ q, ({ s with pending := s.pending ++ ops, pageCache := cache } : FsState).entryKind q
          = s.entryKind q := by
    rcases hops with rfl | ⟨op, rfl, hd⟩
    · have heq : ({ s with pending := s.pending ++ [], pageCache := cache } : FsState)
          = { s with pageCache := cache } := by simp
      rw [heq]
      exact ⟨⟨h.blocks, ⟨h.coherent.disjoint, h.coherent.valid⟩, h.plain, h.distinct, h.entry,
        h.orphan, h.data, h.root⟩, fun _ => rfl⟩
    · exact h.push_data hd hp cache
  refine ⟨hplain, ?_, ?_, ?_⟩
  · intro q k hq hk
    rw [hkind] at hk
    show s.syncedEntries.contains q = _
    rw [h.synced q k hq hk]
    by_cases hqp : q = p
    · rw [hqp, entrySynced_snoc hs1, hs2, Bool.or_false]
    · rw [((hother q hqp).books evs).1]
  · intro q hq
    rw [hkind] at hq
    show s.storedContent q = _
    rw [h.stored q hq]
    by_cases hqp : q = p
    · rw [hqp, durableContent_snoc hs1 (Or.inr hs3), hs3]
      rfl
    · rw [((hother q hqp).books evs).2.1]
  · intro q hq c
    rw [hkind] at hq
    rw [List.filter_append, List.foldl_append, h.queued q hq c]
    by_cases hqp : q = p
    · subst hqp
      have hfilter : ops.filter (FsState.isDataOf q) = ops := by
        rcases hops with rfl | ⟨op, rfl, hd⟩
        · rfl
        · simp [hd]
      rw [hfilter, hsame, sinceCreation_snoc, hs1, if_neg (by simp), undecidedOps_snoc, hs3, hs4,
        he]
      simp
    · have hfilter : ops.filter (FsState.isDataOf q) = [] := by
        rcases hops with rfl | ⟨op, rfl, hd⟩
        · rfl
        · have hqp' : ¬ p = q := fun e => hqp e.symm
          cases op <;> simp_all [FsState.isDataOf]
      rw [hfilter, ((hother q hqp).books evs).2.2]
      rfl

/-- A successful sync of a file. -/
theorem syncFile {e : Event} {p : Path} (hp : s.entryKind p = some .file)
    (he : e.op = .syncFile p ∨ e.op = .syncFileData p) (hok : e.ok = true) :
    Image (s.flushFile p).1 (evs ++ [e]) := by
  obtain ⟨hkind, -⟩ := FsState.flushFile_kind h.coherent (fun _ => h.inodeFits hp)
  obtain ⟨files, f, heq, hf, hcontent, hother⟩ :=
    FsState.flushFile_spec (FsState.fileExists_iff.mpr hp)
  have hc : ∀ q, e.creates q = false := by
    intro q
    rcases he with he | he <;> simp [Event.creates, he]
  have hforeign : ∀ q, q ≠ p → e.Foreign q := by
    intro q hq
    have hq' : ¬ p = q := fun e => hq e.symm
    rcases he with he | he <;>
      exact ⟨hc q, by simp [Event.syncsEntry, he], by simp [Event.syncsData, he, hq'],
        by simp [Event.isCrash, he], by simp [Event.dataTo, he]⟩
  have hdata : e.dataTo p = false := by rcases he with he | he <;> simp [Event.dataTo, he]
  have hsync : e.syncsData p = true := by
    rcases he with he | he <;> simp [Event.syncsData, he, hok]
  refine ⟨h.toPlainState.flushFile hp, ?_, ?_, ?_⟩
  · intro q k hq hk
    rw [hkind] at hk
    rw [heq, entrySynced_snoc (hc q)]
    have : e.syncsEntry q (decide (k = .directory)) = false := by
      rcases he with he | he <;> simp [Event.syncsEntry, he]
    rw [this, Bool.or_false]
    exact h.synced q k hq hk
  · intro q hq
    rw [hkind] at hq
    by_cases hqp : q = p
    · subst hqp
      -- the undecided calls are the ones just applied
      rw [durableContent_snoc (hc q) (Or.inl hdata), hsync, if_pos rfl, ← h.stored q hq,
        ← h.queued q hq, heq]
      simp only [FsState.storedContent, hf, Option.map_some, Option.getD_some, hcontent,
        FsState.applied]
    · rw [((hforeign q hqp).books evs).2.1, ← h.stored q hq, heq]
      simp only [FsState.storedContent, hother q hqp]
  · intro q hq c
    rw [hkind] at hq
    rw [heq, List.filter_filter]
    by_cases hqp : q = p
    · subst hqp
      rw [sinceCreation_snoc, hc, if_neg (by simp), undecidedOps_snoc, hsync, hdata]
      simp
    · rw [((hforeign q hqp).books evs).2.2, ← h.queued q hq c]
      congr 1
      apply List.filter_congr
      intro op _
      cases op <;> simp [FsState.isDataOf]
      all_goals exact fun e e' => hqp (e.symm.trans e')

/-- A successful sync of a directory. -/
theorem syncDir {d : Path} (hex : s.dirExists d = true) (time : Duration) :
    Image (s.syncDir d time).1 (evs ++ [⟨.syncDir d time, true⟩]) := by
  obtain ⟨hkind, -⟩ := FsState.syncDir_kind h.coherent
    (h.distinct.apart (FsState.affectsDir d)) time
  obtain ⟨dirs, heq, -⟩ := FsState.syncDir_spec hex time
  have hE := h.syncDir_entries hex time
  have hc : ∀ q, (⟨.syncDir d time, true⟩ : Event).creates q = false := fun q => rfl
  have hd : ∀ q, (⟨.syncDir d time, true⟩ : Event).dataTo q = false := fun q => rfl
  refine ⟨h.toPlainState.syncDir hex time, ?_, ?_, ?_⟩
  · intro q k hq hk
    rw [hkind] at hk
    rw [entrySynced_snoc (hc q), ← h.synced q k hq hk, Bool.eq_iff_iff, hE, Bool.or_eq_true]
    refine or_congr_right' ?_
    intro hno
    have hno : s.syncedEntries.contains q = false := by simpa using hno
    -- the creation of `q` is pending, so it is flushed iff it affects `d`
    obtain ⟨op, hop, hcr⟩ := h.creation_of_unsynced hk hno
    have hname : q ∈ op.names := by simp [names_of_creation hcr]
    have haff : FsState.affectsDir d op = true
        ↔ Event.syncsEntry q (decide (k = .directory)) ⟨.syncDir d time, true⟩ = true := by
      cases op <;> simp [PendingOp.creation] at hcr <;> obtain ⟨rfl, rfl⟩ := hcr <;>
        simp only [FsState.affectsDir, Event.syncsEntry, Bool.true_and, Bool.or_eq_true,
          decide_eq_true_eq, reduceCtorEq, decide_false, Bool.false_and, or_false,
          Bool.false_eq_true, decide_true]
      exact ⟨fun h => h.symm.imp id Eq.symm, fun h => h.symm.imp Eq.symm id⟩
    rw [← haff]
    constructor
    · rintro ⟨o, ho, hm⟩
      obtain ⟨hmem, hao, -⟩ := h.dirFlush_creation ho
      rwa [h.distinct.eq_of_mem hop hmem hname hm]
    · exact fun ha => ⟨op, List.mem_filter.mpr ⟨hop, ha⟩, hname⟩
  · intro q hq
    rw [hkind] at hq
    rw [durableContent_snoc (hc q) (Or.inl (hd q)), heq]
    show ((s.dirFlush d).foldl FsState.applyOpToPersisted s).storedContent q = durableContent q evs
    rw [FsState.foldl_applyOp_storedContent (fun op hop => ?_)]
    · exact h.stored q hq
    · obtain ⟨-, -, r, k, hcr⟩ := h.dirFlush_creation hop
      exact keepsBytes_creation hcr _
  · intro q hq c
    rw [hkind] at hq
    rw [sinceCreation_snoc, hc, if_neg (by simp), undecidedOps_snoc, hd]
    show ((s.syncDir d time).1.pending.filter (FsState.isDataOf q)).foldl FsState.dataStep c
      = (undecidedOps q (sinceCreation q evs)).foldl FsOp.onContent c
    rw [← h.queued q hq c, heq]
    show ((s.dirKeep d).filter (FsState.isDataOf q)).foldl FsState.dataStep c = _
    rw [FsState.dirKeep, List.filter_filter]
    congr 1
    apply List.filter_congr
    intro op _
    cases op <;> simp [FsState.isDataOf, FsState.affectsDir]

/-- A crash. -/
theorem crash (surviving : Nat → Nat) :
    Image (s.crash surviving) (evs ++ [⟨.crash surviving, true⟩]) := by
  have hkind := h.crash_kind surviving
  have hc : ∀ q, (⟨.crash surviving, true⟩ : Event).creates q = false := fun q => rfl
  have hd : ∀ q, (⟨.crash surviving, true⟩ : Event).dataTo q = false := fun q => rfl
  have hcr : (⟨.crash surviving, true⟩ : Event).isCrash = true := rfl
  -- what is there after the crash has a durable entry
  have hentry : ∀ q k, (s.crash surviving).entryKind q = some k →
      s.syncedEntries.contains q = true ∧ s.entryKind q = some k := by
    intro q k hk
    rw [hkind] at hk
    split at hk
    · rename_i hq
      exact ⟨hq, hk⟩
    · cases hk
  refine ⟨h.toPlainState.crash surviving, ?_, ?_, ?_⟩
  · intro q k hq hk
    obtain ⟨hE, hk⟩ := hentry q k hk
    rw [entrySynced_snoc (hc q), ← h.synced q k hq hk]
    show (s.crash surviving).syncedEntries.contains q = (_ || false)
    rw [Bool.or_false]
    simp [FsState.crash, h.blocks]
  · intro q hq
    obtain ⟨hE, hk⟩ := hentry q _ hq
    rw [durableContent_snoc (hc q) (Or.inl (hd q))]
    show (s.crash surviving).storedContent q = durableContent q evs
    rw [← h.stored q hk]
    simp [FsState.crash, h.blocks, FsState.storedContent, hE]
  · intro q hq c
    rw [sinceCreation_snoc, hc, if_neg (by simp), undecidedOps_snoc, hcr, hd]
    simp [FsState.crash]

/-- **Every call keeps the invariant.** -/
theorem step {op : FsOp} (hop : s.PlainCall op) :
    Image (s.apply op).1 (evs ++ [⟨op, (s.apply op).2.toBool⟩]) := by
  cases op with
  | mkdir p time mode =>
    rcases s.mkdir_cases p time mode with ⟨e, he⟩ | ⟨he, -, hp⟩
    · simp only [FsState.apply, he]
      exact h.idle fun q => ⟨rfl, fun _ => rfl, rfl, rfl, rfl⟩
    · simp only [FsState.apply, he]
      refine h.create rfl hp (by simp [Event.creates, Except.toBool]) fun q hq => ?_
      exact ⟨by simpa [Event.creates] using fun _ => Ne.symm hq, fun _ => Bool.and_false _,
        Bool.and_false _, rfl, rfl⟩
  | createFile p time mode =>
    refine h.create rfl hop (by simp [Event.creates, FsState.apply, Except.toBool]) fun q hq => ?_
    exact ⟨by simpa [Event.creates] using fun _ => Ne.symm hq, fun _ => Bool.and_false _,
      Bool.and_false _, rfl, rfl⟩
  | symlink p target time =>
    rcases s.createSymlink_cases p target time with ⟨e, he⟩ | ⟨he, -, hp⟩
    · simp only [FsState.apply, he]
      exact h.idle fun q => ⟨rfl, fun _ => rfl, rfl, rfl, rfl⟩
    · simp only [FsState.apply, he]
      refine h.create rfl hp (by simp [Event.creates, Except.toBool]) fun q hq => ?_
      exact ⟨by simpa [Event.creates] using fun _ => Ne.symm hq, fun _ => Bool.and_false _,
        Bool.and_false _, rfl, rfl⟩
  | writeFile p offset data time =>
    have hforeign : ∀ q, q ≠ p → (⟨.writeFile p offset data time, true⟩ : Event).Foreign q :=
      fun q hq => ⟨rfl, fun _ => rfl, rfl, rfl, by simpa [Event.dataTo] using Ne.symm hq⟩
    have hself : (⟨.writeFile p offset data time, true⟩ : Event).dataTo p = true := by
      simp [Event.dataTo]
    simp only [FsState.apply, FsState.writeFile]
    cases hd : data.isEmpty with
    | true =>
      -- an empty write queues nothing and writes nothing
      have := h.write [] s.pageCache hop (Or.inl rfl)
        (fun c => by simp [FsOp.onContent, hd]) hself hforeign ⟨rfl, fun _ => rfl, rfl, rfl⟩
      rw [List.append_nil] at this
      exact this
    | false =>
      exact h.write _ s.pageCache hop (Or.inr ⟨.write p offset data time, rfl, by
        simp [FsState.isDataOf]⟩) (fun c => by simp [FsOp.onContent, hd, FsState.dataStep]) hself
        hforeign ⟨rfl, fun _ => rfl, rfl, rfl⟩
  | setFileLen p len time =>
    refine h.write _ _ hop (Or.inr ⟨.setLen p len time, rfl, by simp [FsState.isDataOf]⟩)
      (fun c => rfl) (by simp [Event.dataTo]) (fun q hq => ?_) ⟨rfl, fun _ => rfl, rfl, rfl⟩
    exact ⟨rfl, fun _ => rfl, rfl, rfl, by simpa [Event.dataTo] using Ne.symm hq⟩
  | syncFile p =>
    cases hex : s.fileExists p with
    | false =>
      simp only [FsState.apply, FsState.syncFile, FsState.flushFile_err hex]
      exact h.idle fun q => ⟨rfl, fun _ => rfl, rfl, rfl, rfl⟩
    | true =>
      refine h.syncFile (FsState.fileExists_iff.mp hex) (Or.inl rfl) ?_
      obtain ⟨files, f, heq, -⟩ := FsState.flushFile_spec hex
      simp [FsState.apply, FsState.syncFile, heq, Except.toBool]
  | syncFileData p =>
    cases hex : s.fileExists p with
    | false =>
      simp only [FsState.apply, FsState.syncFileData, FsState.flushFile_err hex]
      exact h.idle fun q => ⟨rfl, fun _ => rfl, rfl, rfl, rfl⟩
    | true =>
      refine h.syncFile (FsState.fileExists_iff.mp hex) (Or.inr rfl) ?_
      obtain ⟨files, f, heq, -⟩ := FsState.flushFile_spec hex
      simp [FsState.apply, FsState.syncFileData, heq, Except.toBool]
  | syncDir d time =>
    cases hex : s.dirExists d with
    | false =>
      simp only [FsState.apply, FsState.syncDir_err hex]
      exact h.idle fun q => ⟨rfl, fun _ => rfl, rfl, rfl, rfl⟩
    | true =>
      have hok : (s.syncDir d time).2.toBool = true := by
        obtain ⟨dirs, heq, -⟩ := FsState.syncDir_spec hex time
        rw [heq]
        rfl
      simp only [FsState.apply, hok]
      exact h.syncDir hex time
  | crash surviving => exact h.crash surviving
  | _ => exact absurd hop id

end Image

/-- The invariant along a whole history. -/
theorem Image.run {ops : List FsOp} : ∀ {s : FsState} {evs : List Event}, Image s evs →
    FsState.Along FsState.PlainCall s ops → Image (s.run ops) (evs ++ s.trace ops) := by
  induction ops with
  | nil => exact fun h _ => by simpa [FsState.trace] using h
  | cons op ops ih =>
    intro s evs h hal
    have := ih (h.step hal.1) hal.2
    rwa [List.append_assoc] at this

/-- A fresh filesystem. -/
theorem image_new {config : FsConfig} (hb : config.blockSize = none) :
    Image (FsState.new config) [] := by
  have hkind : ∀ p, (FsState.new config).persistedKind p
      = if p = Path.root then some .directory else none := by
    intro p
    by_cases hp : p = Path.root <;> simp [FsState.new, FsState.persistedKind, hp]
  refine ⟨⟨hb, ⟨fun p => by simp [FsState.new], trivial⟩, ?_, List.Pairwise.nil, ?_, ?_, ?_, ?_⟩,
    ?_, ?_, ?_⟩
  · exact fun op hop => by cases hop
  · intro p hp
    have hroot : p = Path.root := by simpa [FsState.new] using hp
    rw [hkind, if_pos hroot]
    exact ⟨by simp, fun op hop => by cases hop⟩
  · intro p hp hs
    rw [hkind] at hp
    simp [FsState.new] at hs
    simp [hs] at hp
  · exact fun p op hop => by cases hop
  · exact ⟨by simp [FsState.new], by rw [hkind, if_pos rfl]⟩
  · intro p k hp hk
    have : (FsState.new config).entryKind p = (FsState.new config).persistedKind p := rfl
    rw [this, hkind, if_neg hp] at hk
    cases hk
  · intro p hp
    have : (FsState.new config).entryKind p = (FsState.new config).persistedKind p := rfl
    rw [this, hkind] at hp
    split at hp <;> cases hp
  · intro p hp c
    rfl

/-! ## 4. The crash image -/

/-- **The exact crash image.**  After a crash of a plain history nothing is pending; what was
there survives iff its entry was synced since its latest creation, and nothing else appears;
and a surviving file holds the fold of the data calls to it that a sync of it had followed
before the next crash. -/
theorem crash_image (config : FsConfig) (hb : config.blockSize = none) (ops : List FsOp)
    (hops : FsState.Along FsState.PlainCall (FsState.new config) ops) (surviving : Nat → Nat) :
    let before := (FsState.new config).run ops
    let evs := (FsState.new config).trace ops
    let after := before.crash surviving
    after.pending = []
    ∧ after.entryKind Path.root = some .directory
    ∧ (∀ p k, p ≠ Path.root → before.entryKind p = some k →
        after.entryKind p = if entrySynced p (decide (k = .directory)) evs then some k else none)
    ∧ (∀ p, before.entryKind p = none → after.entryKind p = none)
    ∧ ∀ p, after.entryKind p = some .file →
        after.fileLen p = some (durableContent p evs).length
        ∧ ∀ bufLen offset, after.readFile p bufLen offset
            = some (((durableContent p evs).drop offset).take bufLen) := by
  intro before evs after
  have h : Image before evs := by simpa using (image_new hb).run hops
  have hcrash : Image after (evs ++ [⟨.crash surviving, true⟩]) := h.crash surviving
  have hpend : after.pending = [] := by simp [after, FsState.crash]
  refine ⟨hpend, ?_, ?_, ?_, ?_⟩
  · rw [hcrash.kind_of_entry hcrash.root.1]
    exact hcrash.root.2
  · intro p k hp hk
    rw [h.crash_kind, h.synced p k hp hk, hk]
  · intro p hp
    rw [h.crash_kind, hp]
    split <;> rfl
  · intro p hp
    have hbytes : after.content p = some (durableContent p evs) := by
      rw [FsState.content_of_pending_nil hpend, hcrash.stored p hp,
        durableContent_snoc rfl (Or.inl rfl)]
      rfl
    refine ⟨by rw [FsState.fileLen_eq_length, hbytes]; rfl, fun bufLen offset => ?_⟩
    rw [FsState.readFile_eq_slice, hbytes]
    split
    · rename_i h0
      rw [h0, List.take_zero]
    · rfl

/-- A history with a crash between two writes to one file: the first write is issued after the
file's creation and before its last sync, and is lost all the same. -/
def lostWriteHistory : List FsOp :=
  [.createFile (Path.abs ["f"]) 0 0o644, .syncFile (Path.abs ["f"]), .syncDir Path.root 0,
    .writeFile (Path.abs ["f"]) 0 [97] 0, .crash fun _ => 0,
    .writeFile (Path.abs ["f"]) 1 [98] 0, .syncFile (Path.abs ["f"])]

/-- The theorem at that history. -/
theorem crash_image_lostWrite :
    FsState.Along FsState.PlainCall (FsState.new FsConfig.default) lostWriteHistory
    ∧ (((FsState.new FsConfig.default).run lostWriteHistory).crash fun _ => 0).readFile
        (Path.abs ["f"]) 4 0 = some [0, 98] := by
  have hplain : FsState.Along FsState.PlainCall (FsState.new FsConfig.default)
      lostWriteHistory := by decide
  obtain ⟨-, -, -, -, hfile⟩ := crash_image FsConfig.default rfl lostWriteHistory hplain fun _ => 0
  refine ⟨hplain, ?_⟩
  rw [(hfile (Path.abs ["f"]) (by decide)).2 4 0]
  decide

/-- **A write before the last sync is not enough.**  The surviving content of that history is
not the fold over all writes between creation and last sync. -/
theorem crash_image_ne_opsBeforeLastSync :
    FsState.Along FsState.PlainCall (FsState.new FsConfig.default) lostWriteHistory
    ∧ (((FsState.new FsConfig.default).run lostWriteHistory).crash fun _ => 0).entryKind
        (Path.abs ["f"]) = some .file
    ∧ (((FsState.new FsConfig.default).run lostWriteHistory).crash fun _ => 0).readFile
        (Path.abs ["f"]) 4 0
      ≠ some (((opsBeforeLastSync (Path.abs ["f"]) (sinceCreation (Path.abs ["f"])
          ((FsState.new FsConfig.default).trace lostWriteHistory))).foldl
            FsOp.onContent []).take 4) := by
  decide

end Turmoil.Fs
