/-
# Every accepted entry completes once

Conservation is an invariant of the two pools together, `Tracked`: the numbers of the completions
yielded so far and of those in the pools are a permutation of the numbers accepted, and each of
them answers its entry, with the entry's own operation unless the entry has none or a cancel took
it out.  The pools' order does not matter to it, so every operation of the ring is one of four
moves: accept, remove, yield, and reorder.

The second invariant is about the handle: what the last `sync` exposed and `next` has not yielded
yet is still there, since a cancel puts a matured completion in the place of the one it takes.
-/
import Turmoil.Uring.Ring

namespace Turmoil.Uring

open Fs

/-! ## 1. Reading a trace -/

/-- The accepted entries in order, each with its scheduled time. -/
def acceptedIn (tr : List Event) : List (Entry × Duration) :=
  tr.filterMap fun
    | .accepted e due => some (e, due)
    | _ => none

/-- The completions yielded, in order. -/
def yieldsIn (tr : List Event) : List ScheduledCqe :=
  tr.filterMap fun
    | .yielded c _ _ => some c
    | _ => none

/-- The operation an entry asks for; none for a cancel and for flags that are rejected. -/
def Entry.operation (e : Entry) : Option PendingApply :=
  if e.flags.hasUnsupported then none
  else
    match e.op with
    | .read fd ptr len offset => some (.read fd ptr len offset)
    | .write fd ptr len offset => some (.write fd ptr len offset)
    | .fsync fd => some (.fsync fd)
    | .asyncCancel _ => none

/-- The completion answers an accepted entry: with the entry's own operation at its scheduled time,
or with an error code when the entry has no operation or a cancel took it out. -/
def Answers (tr : List Event) (c : ScheduledCqe) : Prop :=
  ∃ e due, (acceptedIn tr)[c.sqe]? = some (e, due) ∧ c.userData = e.userData
    ∧ ((e.operation = some c.apply ∧ c.when = due ∧ .removed c.sqe ∉ tr)
      ∨ ((∃ err, c.apply = .immediateError err) ∧ (e.operation = none ∨ .removed c.sqe ∈ tr)))

section Answers

variable {tr tr' : List Event} {c : ScheduledCqe}

theorem acceptedIn_append (tr tr' : List Event) :
    acceptedIn (tr ++ tr') = acceptedIn tr ++ acceptedIn tr' := List.filterMap_append

theorem yieldsIn_append (tr tr' : List Event) :
    yieldsIn (tr ++ tr') = yieldsIn tr ++ yieldsIn tr' := List.filterMap_append

/-- What happens later does not change what a completion answers, unless its operation is taken
out. -/
theorem Answers.append (h : Answers tr c) (htr : .removed c.sqe ∉ tr') : Answers (tr ++ tr') c := by
  obtain ⟨e, due, hget, hud, hkind⟩ := h
  refine ⟨e, due, ?_, hud, ?_⟩
  · rw [acceptedIn_append, List.getElem?_append_left (List.getElem?_eq_some_iff.mp hget).1]
    exact hget
  · rcases hkind with ⟨hop, hwhen, hnot⟩ | ⟨herr, hwhy⟩
    · exact Or.inl ⟨hop, hwhen, fun h => (List.mem_append.mp h).elim hnot htr⟩
    · exact Or.inr ⟨herr, hwhy.imp_right fun h => List.mem_append_left _ h⟩

end Answers

/-! ## 2. The four moves -/

/-- Nothing is lost or duplicated between the accepted entries, the completions yielded and the
pools. -/
structure Tracked (pool : List ScheduledCqe) (tr : List Event) : Prop where
  tags : ((yieldsIn tr ++ pool).map (·.sqe)).Perm (List.range (acceptedIn tr).length)
  answers : ∀ c ∈ yieldsIn tr ++ pool, Answers tr c
  due : ∀ c r t, .yielded c r t ∈ tr → c.when ≤ t
  removed : ∀ i, .removed i ∈ tr → i < (acceptedIn tr).length

namespace Tracked

variable {pool pool' : List ScheduledCqe} {tr : List Event} {c : ScheduledCqe}

theorem nil : Tracked [] [] where
  tags := List.Perm.refl _
  answers := fun _ h => nomatch h
  due := fun _ _ _ h => nomatch h
  removed := fun _ h => nomatch h

theorem reorder (h : Tracked pool tr) (hp : pool'.Perm pool) : Tracked pool' tr where
  tags := (((hp.append_left _).map _)).trans h.tags
  answers := fun c hc => h.answers c ((hp.append_left _).mem_iff.mp hc)
  due := h.due
  removed := h.removed

/-- An entry is accepted, and the next number answers it. -/
theorem accept (h : Tracked pool tr) {e : Entry} (due : Duration)
    (hsqe : c.sqe = (acceptedIn tr).length) (hud : c.userData = e.userData)
    (hkind : (e.operation = some c.apply ∧ c.when = due)
      ∨ ((∃ err, c.apply = .immediateError err) ∧ e.operation = none)) :
    Tracked (pool ++ [c]) (tr ++ [.accepted e due]) := by
  have hacc : acceptedIn (tr ++ [.accepted e due]) = acceptedIn tr ++ [(e, due)] :=
    acceptedIn_append _ _
  have hyld : yieldsIn (tr ++ [.accepted e due]) = yieldsIn tr := by
    rw [yieldsIn_append]
    exact List.append_nil _
  have hfresh : .removed c.sqe ∉ tr ++ [.accepted e due] := by
    intro hr
    rcases List.mem_append.mp hr with hr | hr
    · have := h.removed _ hr
      omega
    · cases List.mem_singleton.mp hr
  constructor
  · rw [hacc, hyld, List.length_append, List.length_singleton, List.range_succ, ← List.append_assoc,
      List.map_append, List.map_singleton, hsqe]
    exact h.tags.append_right _
  · intro d hd
    rw [hyld, ← List.append_assoc] at hd
    rcases List.mem_append.mp hd with hd | hd
    · exact (h.answers d hd).append (by simp)
    · rw [List.mem_singleton.mp hd]
      refine ⟨e, due, by rw [hacc, hsqe]; simp, hud, ?_⟩
      exact hkind.imp (fun hk => ⟨hk.1, hk.2, hfresh⟩) (fun hk => ⟨hk.1, Or.inl hk.2⟩)
  · intro d r t hd
    rcases List.mem_append.mp hd with hd | hd
    · exact h.due d r t hd
    · cases List.mem_singleton.mp hd
  · intro i hi
    rw [hacc, List.length_append]
    rcases List.mem_append.mp hi with hi | hi
    · exact Nat.lt_add_right _ (h.removed i hi)
    · cases List.mem_singleton.mp hi

/-- No two of them have the same number. -/
theorem ne_sqe (h : Tracked (c :: pool) tr) {d : ScheduledCqe} (hd : d ∈ yieldsIn tr ++ pool) :
    d.sqe ≠ c.sqe := by
  have hnodup := h.tags.nodup_iff.mpr List.nodup_range
  have hperm : ((yieldsIn tr ++ c :: pool).map (·.sqe)).Perm
      (c.sqe :: (yieldsIn tr ++ pool).map (·.sqe)) := List.perm_middle.map _
  have hnot := (List.nodup_cons.mp (hperm.nodup_iff.mp hnodup)).1
  exact fun he => hnot (he ▸ List.mem_map_of_mem hd)

theorem sqe_lt (h : Tracked pool tr) (hc : c ∈ yieldsIn tr ++ pool) :
    c.sqe < (acceptedIn tr).length :=
  List.mem_range.mp (h.tags.mem_iff.mp (List.mem_map_of_mem hc))

/-- A cancel takes an operation out and leaves an error in its place. -/
theorem remove (h : Tracked (c :: pool) tr) (now : Duration) (err : Int) :
    Tracked (⟨now, c.userData, .immediateError err, c.sqe⟩ :: pool) (tr ++ [.removed c.sqe]) := by
  have hacc : acceptedIn (tr ++ [.removed c.sqe]) = acceptedIn tr := by
    rw [acceptedIn_append]
    exact List.append_nil _
  have hyld : yieldsIn (tr ++ [.removed c.sqe]) = yieldsIn tr := by
    rw [yieldsIn_append]
    exact List.append_nil _
  constructor
  · rw [hacc, hyld]
    simpa using h.tags
  · intro d hd
    rw [hyld] at hd
    rcases List.mem_cons.mp (List.perm_middle.mem_iff.mp hd) with rfl | hd
    · obtain ⟨e, due, hget, hud, -⟩ := h.answers c (by simp)
      refine ⟨e, due, by rw [hacc]; exact hget, hud, Or.inr ⟨⟨err, rfl⟩, Or.inr (by simp)⟩⟩
    · have hne := h.ne_sqe hd
      refine (h.answers d ?_).append (by simpa using hne)
      exact List.perm_middle.mem_iff.mpr (List.mem_cons_of_mem _ hd)
  · intro d r t hd
    rcases List.mem_append.mp hd with hd | hd
    · exact h.due d r t hd
    · cases List.mem_singleton.mp hd
  · intro i hi
    rw [hacc]
    rcases List.mem_append.mp hi with hi | hi
    · exact h.removed i hi
    · cases List.mem_singleton.mp hi
      exact h.sqe_lt (by simp)

/-- `next` returning nothing is no move. -/
theorem exhausted (h : Tracked pool tr) : Tracked pool (tr ++ [.exhausted]) := by
  have hacc : acceptedIn (tr ++ [.exhausted]) = acceptedIn tr := by
    rw [acceptedIn_append]
    exact List.append_nil _
  have hyld : yieldsIn (tr ++ [.exhausted]) = yieldsIn tr := by
    rw [yieldsIn_append]
    exact List.append_nil _
  constructor
  · rw [hacc, hyld]
    exact h.tags
  · intro d hd
    rw [hyld] at hd
    exact (h.answers d hd).append (by simp)
  · intro d r t hd
    rcases List.mem_append.mp hd with hd | hd
    · exact h.due d r t hd
    · cases List.mem_singleton.mp hd
  · intro i hi
    rw [hacc]
    rcases List.mem_append.mp hi with hi | hi
    · exact h.removed i hi
    · cases List.mem_singleton.mp hi

/-- A completion whose time has come is yielded. -/
theorem yield (h : Tracked (c :: pool) tr) {now : Duration} (hwhen : c.when ≤ now) (result : Int) :
    Tracked pool (tr ++ [.yielded c result now]) := by
  have hacc : acceptedIn (tr ++ [.yielded c result now]) = acceptedIn tr := by
    rw [acceptedIn_append]
    exact List.append_nil _
  have hyld : yieldsIn (tr ++ [.yielded c result now]) ++ pool = yieldsIn tr ++ c :: pool := by
    rw [yieldsIn_append, List.append_assoc]
    rfl
  constructor
  · rw [hacc, hyld]
    exact h.tags
  · intro d hd
    rw [hyld] at hd
    exact (h.answers d hd).append (by simp)
  · intro d r t hd
    rcases List.mem_append.mp hd with hd | hd
    · exact h.due d r t hd
    · cases List.mem_singleton.mp hd
      exact hwhen
  · intro i hi
    rw [hacc]
    rcases List.mem_append.mp hi with hi | hi
    · exact h.removed i hi
    · cases List.mem_singleton.mp hi

end Tracked

/-! ## 3. What the ring does to its pools -/

namespace RingState

variable {r r' : RingState} {c : ScheduledCqe} {now : Duration}

/-- Both pools together. -/
def pool (r : RingState) : List ScheduledCqe := r.ready ++ r.inflight

theorem schedule_pool (r : RingState) (userData : UInt64) (when : Duration) (apply : PendingApply)
    (sqe : Nat) :
    (r.schedule userData when apply sqe).pool = r.pool ++ [⟨when, userData, apply, sqe⟩] :=
  (List.append_assoc _ _ _).symm

theorem readyCqCount_schedule (r : RingState) (userData : UInt64) (when : Duration)
    (apply : PendingApply) (sqe : Nat) (now : Duration) :
    (r.schedule userData when apply sqe).readyCqCount now
      = r.readyCqCount now + if when ≤ now then 1 else 0 := by
  unfold readyCqCount schedule
  rw [List.countP_append, List.countP_singleton]
  simp only [decide_eq_true_eq]
  omega

/-- When `ready` holds only what is due, the count is over both pools. -/
theorem readyCqCount_eq (hready : ∀ c ∈ r.ready, c.when ≤ now) :
    r.readyCqCount now = r.pool.countP fun c => decide (c.when ≤ now) := by
  rw [pool, List.countP_append, List.countP_eq_length.mpr fun c hc => decide_eq_true (hready c hc)]
  rfl

/-- A cancel takes its target out of one pool, and at most one matured completion with it. -/
theorem takeTarget_spec (now : Duration) {targetUd : UInt64} (h : r.takeTarget targetUd = some (c, r')) :
    (c :: r'.pool).Perm r.pool ∧ c.userData = targetUd ∧ (∀ d ∈ r'.ready, d ∈ r.ready)
      ∧ r.readyCqCount now ≤ r'.readyCqCount now + 1 := by
  unfold takeTarget at h
  split at h
  · rename_i idx hidx
    obtain ⟨d, hd, heq⟩ := Option.map_eq_some_iff.mp h
    cases heq
    have hperm := swapRemove_perm hd
    have hud := List.findIdx?_eq_some_iff_getElem.mp hidx
    obtain ⟨hlt, hp, -⟩ := hud
    rw [List.getElem?_eq_getElem hlt] at hd
    cases hd
    refine ⟨?_, by simpa using hp, fun d hd => hd, ?_⟩
    · exact List.perm_middle.symm.trans (hperm.append_left _)
    · have hcount := hperm.countP_eq (fun c => decide (c.when ≤ now))
      rw [List.countP_cons] at hcount
      unfold readyCqCount
      dsimp only
      split at hcount <;> omega
  · split at h
    · rename_i idx hidx
      obtain ⟨d, hd, heq⟩ := Option.map_eq_some_iff.mp h
      cases heq
      obtain ⟨hlt, hp, -⟩ := List.findIdx?_eq_some_iff_getElem.mp hidx
      rw [List.getElem?_eq_getElem hlt] at hd
      cases hd
      refine ⟨?_, by simpa using hp, fun d hd => List.mem_of_mem_eraseIdx hd, ?_⟩
      · exact (List.getElem_cons_eraseIdx_perm hlt).append_right _
      · unfold readyCqCount
        simp only [List.length_eraseIdx_of_lt hlt]
        omega
    · cases h

/-- Promotion reorders the pools; what stays in `inflight` is not due, and what is in `ready` is. -/
theorem promoteReady_spec (r : RingState) (now : Duration) (order : Shuffle)
    (hready : ∀ c ∈ r.ready, c.when ≤ now) :
    (r.promoteReady now order).pool.Perm r.pool
      ∧ (∀ c ∈ (r.promoteReady now order).ready, c.when ≤ now)
      ∧ (r.promoteReady now order).ready.length = r.readyCqCount now := by
  obtain ⟨hperm, hkept, htaken⟩ := scanOut_spec (fun c : ScheduledCqe => decide (c.when ≤ now))
    r.inflight.length 0 r.inflight [] (by omega) (by simp) (by simp)
  unfold promoteReady pool
  generalize scanOut (fun c : ScheduledCqe => decide (c.when ≤ now)) r.inflight.length 0 r.inflight []
    = res at hperm hkept htaken
  obtain ⟨kept, taken⟩ := res
  dsimp only at hperm hkept htaken ⊢
  refine ⟨?_, ?_, ?_⟩
  · rw [List.append_assoc]
    exact (((shuffle_perm order taken).append_right _).trans hperm).append_left _
  · intro c hc
    rcases List.mem_append.mp hc with hc | hc
    · exact hready c hc
    · exact of_decide_eq_true (htaken c ((shuffle_perm order taken).mem_iff.mp hc))
  · have hcount := hperm.countP_eq (fun c => decide (c.when ≤ now))
    rw [List.countP_append, List.nil_append, List.countP_eq_length.mpr htaken,
      List.countP_eq_zero.mpr (fun c hc => by simpa using hkept c hc)] at hcount
    rw [List.length_append, (shuffle_perm order taken).length_eq, readyCqCount]
    omega

end RingState

/-! ## 4. Submission -/

/-- The filesystems differ in the page cache at most. -/
def SameButCache (fs fs' : FsState) : Prop := fs' = { fs with pageCache := fs'.pageCache }

theorem SameButCache.trans {fs fs' fs'' : FsState} (h : SameButCache fs fs')
    (h' : SameButCache fs' fs'') : SameButCache fs fs'' := by
  unfold SameButCache at h h' ⊢
  rw [h', h]

theorem cacheRead_same {fs fs' : FsState} {fd : RawFd} {offset : Nat} {evict hit : Bool}
    (h : cacheRead fs fd offset evict = some (fs', hit)) : SameButCache fs fs' := by
  unfold cacheRead at h
  split at h
  · cases h
    rfl
  · split at h
    · obtain ⟨cache, -, heq⟩ := Option.map_eq_some_iff.mp h
      cases heq
      rfl
    · cases h
      rfl

theorem cacheWrite_same {fs fs' : FsState} {fd : RawFd} {offset : Nat}
    (h : cacheWrite fs fd offset = some fs') : SameButCache fs fs' := by
  unfold cacheWrite at h
  split at h
  · cases h
    rfl
  · split at h
    · obtain ⟨cache, -, heq⟩ := Option.map_eq_some_iff.mp h
      cases heq
      rfl
    · cases h
      rfl

/-- The pools are accounted for, and `ready` holds only what is due. -/
structure Accounted (r : RingState) (now : Duration) (tr : List Event) : Prop where
  tracked : Tracked r.pool tr
  ready : ∀ c ∈ r.ready, c.when ≤ now

/-- What accepting an entry can do to the ring. -/
inductive Accepts (ring : RingState) (now : Duration) (sqe : Nat) (entry : Entry) :
    RingState → List Event → Prop where
  /-- A completion for the entry itself. -/
  | scheduled (when due : Duration) (apply : PendingApply)
      (hkind : (entry.operation = some apply ∧ when = due)
        ∨ ((∃ err, apply = .immediateError err) ∧ entry.operation = none)) :
      Accepts ring now sqe entry (ring.schedule entry.userData when apply sqe)
        [.accepted entry due]
  /-- A cancel that found its target. -/
  | cancelled (c : ScheduledCqe) (r : RingState) (ht : ring.takeTarget c.userData = some (c, r))
      (hop : entry.operation = none) :
      Accepts ring now sqe entry
        ((r.schedule c.userData now (.immediateError (-ecanceled)) c.sqe).schedule entry.userData now
          (.immediateError 0) sqe)
        [.removed c.sqe, .accepted entry now]

theorem scheduleEntry_accepts {fs fs' : FsState} {ring ring' : RingState} {now : Duration}
    {draw : LatencyDraw} {sqe : Nat} {entry : Entry} {ev : List Event}
    (h : scheduleEntry fs ring now draw sqe entry = some (fs', ring', ev)) :
    SameButCache fs fs' ∧ Accepts ring now sqe entry ring' ev := by
  unfold scheduleEntry at h
  split at h
  · rename_i hflags
    cases h
    exact ⟨rfl, .scheduled now now _ (Or.inr ⟨⟨_, rfl⟩, by simp [Entry.operation, hflags]⟩)⟩
  · rename_i hflags
    split at h
    · rename_i fd ptr len offset hop
      obtain ⟨⟨fs1, hit⟩, hcache, heq⟩ := Option.map_eq_some_iff.mp h
      cases heq
      exact ⟨cacheRead_same hcache,
        .scheduled _ _ _ (Or.inl ⟨by simp [Entry.operation, hflags, hop], rfl⟩)⟩
    · rename_i fd ptr len offset hop
      obtain ⟨fs1, hcache, heq⟩ := Option.map_eq_some_iff.mp h
      cases heq
      exact ⟨cacheWrite_same hcache,
        .scheduled _ _ _ (Or.inl ⟨by simp [Entry.operation, hflags, hop], rfl⟩)⟩
    · rename_i fd hop
      cases h
      exact ⟨rfl, .scheduled _ _ _ (Or.inl ⟨by simp [Entry.operation, hflags, hop], rfl⟩)⟩
    · rename_i target hop
      have hnone : entry.operation = none := by simp [Entry.operation, hflags, hop]
      cases h
      refine ⟨rfl, ?_⟩
      unfold RingState.cancel
      cases ht : ring.takeTarget target with
      | none => exact .scheduled now now _ (Or.inr ⟨⟨_, rfl⟩, hnone⟩)
      | some found =>
        obtain ⟨c, r⟩ := found
        have hud : c.userData = target := (RingState.takeTarget_spec now ht).2.1
        subst hud
        exact .cancelled c r ht hnone

theorem Accepts.accounted {ring ring' : RingState} {now : Duration} {sqe : Nat} {entry : Entry}
    {ev tr : List Event} (h : Accepts ring now sqe entry ring' ev) (hacc : Accounted ring now tr)
    (hsqe : sqe = (acceptedIn tr).length) :
    Accounted ring' now (tr ++ ev) ∧ (acceptedIn (tr ++ ev)).length = sqe + 1
      ∧ ring.readyCqCount now ≤ ring'.readyCqCount now ∧ yieldsIn ev = [] ∧ .exhausted ∉ ev := by
  cases h with
  | scheduled when due apply hkind =>
    refine ⟨⟨?_, hacc.ready⟩, ?_, ?_, rfl, by simp⟩
    · rw [RingState.schedule_pool]
      exact hacc.tracked.accept due hsqe rfl hkind
    · rw [acceptedIn_append, List.length_append, hsqe]
      rfl
    · rw [RingState.readyCqCount_schedule]
      exact Nat.le_add_right _ _
  | cancelled c r ht hop =>
    obtain ⟨hperm, -, hsub, hcount⟩ := RingState.takeTarget_spec now ht
    have hremoved := (hacc.tracked.reorder hperm).remove now (-ecanceled)
    have hlen : (acceptedIn (tr ++ [.removed c.sqe])).length = sqe := by
      rw [acceptedIn_append, List.length_append, hsqe]
      rfl
    refine ⟨⟨?_, fun d hd => hacc.ready d (hsub d hd)⟩, ?_, ?_, rfl, by simp⟩
    · rw [RingState.schedule_pool, RingState.schedule_pool]
      have := (hremoved.reorder (List.perm_append_singleton _ _)).accept
        (c := ⟨now, entry.userData, .immediateError 0, sqe⟩) (e := entry) now hlen.symm rfl
        (Or.inr ⟨⟨_, rfl⟩, hop⟩)
      rwa [List.append_assoc tr] at this
    · rw [acceptedIn_append, List.length_append, hsqe]
      rfl
    · rw [RingState.readyCqCount_schedule, RingState.readyCqCount_schedule, if_pos (Nat.le_refl _)]
      omega

/-- **Submitting** accounts for every entry, and takes nothing from what was visible. -/
theorem schedulePending_accounted (now : Duration) (draw : Nat → LatencyDraw) :
    ∀ (entries : List Entry) {fs fs' : FsState} {ring ring' : RingState} {sqe : Nat}
      {tr evs : List Event},
    Accounted ring now tr → sqe = (acceptedIn tr).length →
    schedulePending now draw fs ring sqe entries = some (fs', ring', evs) →
    SameButCache fs fs' ∧ Accounted ring' now (tr ++ evs)
      ∧ (acceptedIn (tr ++ evs)).length = sqe + entries.length
      ∧ ring.readyCqCount now ≤ ring'.readyCqCount now ∧ yieldsIn evs = [] ∧ .exhausted ∉ evs := by
  intro entries
  induction entries with
  | nil =>
    intro fs fs' ring ring' sqe tr evs hacc hsqe h
    cases h
    rw [List.append_nil]
    exact ⟨rfl, hacc, hsqe.symm, Nat.le_refl _, rfl, by simp⟩
  | cons entry entries ih =>
    intro fs fs' ring ring' sqe tr evs hacc hsqe h
    obtain ⟨⟨fs1, ring1, ev1⟩, h1, h⟩ := Option.bind_eq_some_iff.mp h
    obtain ⟨⟨fs2, ring2, ev2⟩, h2, heq⟩ := Option.map_eq_some_iff.mp h
    cases heq
    obtain ⟨hsame, hone⟩ := scheduleEntry_accepts h1
    obtain ⟨hacc1, hlen1, hcount1, hyld1, hex1⟩ := hone.accounted hacc hsqe
    obtain ⟨hsame2, hacc2, hlen2, hcount2, hyld2, hex2⟩ := ih hacc1 hlen1.symm h2
    rw [List.append_assoc] at hacc2 hlen2
    refine ⟨hsame.trans hsame2, hacc2, ?_, Nat.le_trans hcount1 hcount2, ?_, ?_⟩
    · rw [hlen2, List.length_cons]
      omega
    · rw [yieldsIn_append, hyld1, hyld2]
      rfl
    · exact fun hmem => (List.mem_append.mp hmem).elim hex1 hex2

/-! ## 5. Runs -/

/-- The invariant of the ring and its handle. -/
structure Inv (w : World) (tr : List Event) : Prop where
  accounted : Accounted w.ring w.now tr
  accepted : w.accepted = (acceptedIn tr).length
  /-- What the handle may still yield is there. -/
  visible : w.visible.getD 0 ≤ w.ring.readyCqCount w.now

theorem Inv.new (depth : Nat) (fs : FsState) (mem : Memory) (now : Duration) :
    Inv (World.new depth fs mem now) [] where
  accounted := ⟨Tracked.nil, fun _ h => nomatch h⟩
  accepted := rfl
  visible := Nat.le_refl _

/-- What `next` does: it yields the first of `ready`, and runs its operation there and then; it
yields nothing only where nothing is visible. -/
inductive Nexts (w : World) (draws : Draws) : World → List Event → Prop where
  | exhausted (hv : w.visible.getD 0 = 0) : Nexts w draws w [.exhausted]
  | yielded (c : ScheduledCqe) (r : RingState) (n : Nat) (fs : FsState) (mem : Memory)
      (result : Int) (hv : w.visible = some (n + 1)) (hpool : (c :: r.pool).Perm w.ring.pool)
      (hwhen : c.when ≤ w.now) (hready : ∀ d ∈ r.ready, d.when ≤ w.now)
      (hexec : c.apply.execute w.fs w.mem draws w.now = some (fs, mem, result)) :
      Nexts w draws { w with ring := r, visible := some n, fs := fs, mem := mem }
        [.yielded c result w.now]

/-- **What is visible is found.**  While the handle may yield, `pop_ready` finds a completion that is
due, and takes nothing else out of the pools. -/
theorem Inv.pops {w : World} {tr : List Event} (hinv : Inv w tr) {n : Nat}
    (hv : w.visible = some (n + 1)) (order : Shuffle) :
    ∃ c r, w.ring.popReady w.now order = (r, some c) ∧ (c :: r.pool).Perm w.ring.pool
      ∧ c.when ≤ w.now ∧ ∀ d ∈ r.ready, d.when ≤ w.now := by
  obtain ⟨hperm, hdue, hlen⟩ :=
    RingState.promoteReady_spec w.ring w.now order hinv.accounted.ready
  have hvis := hinv.visible
  rw [hv, Option.getD_some, ← hlen] at hvis
  unfold RingState.popReady
  cases hready : (w.ring.promoteReady w.now order).ready with
  | nil =>
    rw [hready] at hvis
    exact absurd hvis (by simp)
  | cons c rest =>
    rw [hready] at hdue
    simp only [hready]
    refine ⟨c, _, rfl, ?_, hdue c (by simp), fun d hd => hdue d (List.mem_cons_of_mem _ hd)⟩
    have hpool : c :: (rest ++ (w.ring.promoteReady w.now order).inflight)
        = (w.ring.promoteReady w.now order).pool := by
      rw [RingState.pool, hready]
      rfl
    exact hpool ▸ hperm

theorem nextCqe_nexts {w w' : World} {tr ev : List Event} {order : Shuffle} {draws : Draws}
    (hinv : Inv w tr) (h : w.nextCqe order draws = some (w', ev)) : Nexts w draws w' ev := by
  unfold World.nextCqe at h
  split at h
  · rename_i hv
    cases h
    exact .exhausted (by rw [hv]; rfl)
  · rename_i hv
    cases h
    exact .exhausted (by rw [hv]; rfl)
  · rename_i n hv
    obtain ⟨c, r, hpop, hpool, hwhen, hready⟩ := hinv.pops hv order
    rw [hpop] at h
    obtain ⟨⟨fs, mem, result⟩, hexec, heq⟩ := Option.map_eq_some_iff.mp h
    cases heq
    exact .yielded c r n fs mem result hv hpool hwhen hready hexec

/-- While the handle may yield, `next` does not return only where the operation of the completion it
found ends the process. -/
theorem Inv.next_eq_none {w : World} {tr : List Event} (hinv : Inv w tr)
    (hv : w.visible.getD 0 ≠ 0) (order : Shuffle) :
    ∃ c r, w.ring.popReady w.now order = (r, some c) ∧ ∀ draws,
      w.step (.next order draws) = none ↔ c.apply.execute w.fs w.mem draws w.now = none := by
  obtain ⟨n, hn⟩ : ∃ n, w.visible = some (n + 1) := by
    rcases hvis : w.visible with _ | _ | n
    · exact absurd (by rw [hvis]; rfl) hv
    · exact absurd (by rw [hvis]; rfl) hv
    · exact ⟨n, rfl⟩
  obtain ⟨c, r, hpop, -⟩ := hinv.pops hn order
  refine ⟨c, r, hpop, fun draws => ?_⟩
  show w.nextCqe order draws = none ↔ _
  rw [World.nextCqe, hn]
  dsimp only
  rw [hpop]
  exact Option.map_eq_none_iff

/-- What a step of the ring does to the filesystem and the memory: it runs the operation of the
completion it yields, and otherwise at most turns pages in the cache. -/
def Effects (w : World) (op : RingOp) (w' : World) (ev : List Event) : Prop :=
  match op with
  | .next _ draws =>
    (ev = [.exhausted] ∧ w'.fs = w.fs ∧ w'.mem = w.mem)
      ∨ ∃ c result, ev = [.yielded c result w.now]
        ∧ c.apply.execute w.fs w.mem draws w.now = some (w'.fs, w'.mem, result)
  | .outside _ _ => ev = []
  | _ => yieldsIn ev = [] ∧ SameButCache w.fs w'.fs ∧ w'.mem = w.mem

/-- A turn of the handle: how many completions it may still yield. -/
def Exposed (w : World) (op : RingOp) (w' : World) (ev : List Event) : Prop :=
  match op with
  | .next _ _ => (w.visible.getD 0 = 0 ∧ w'.visible = w.visible)
      ∨ (.exhausted ∉ ev ∧ w.visible.getD 0 = w'.visible.getD 0 + 1)
  | .sync => True
  | _ => .exhausted ∉ ev ∧ w'.visible = w.visible

theorem Inv.step {w w' : World} {tr ev : List Event} {op : RingOp} (hinv : Inv w tr)
    (h : w.step op = some (w', ev)) :
    Inv w' (tr ++ ev) ∧ Effects w op w' ev ∧ Exposed w op w' ev := by
  cases op with
  | push entry =>
    rw [World.step] at h
    split at h
    · cases h
      rw [List.append_nil]
      exact ⟨hinv, ⟨rfl, rfl, rfl⟩, by simp, rfl⟩
    · cases h
      rw [List.append_nil]
      exact ⟨⟨⟨hinv.accounted.tracked, hinv.accounted.ready⟩, hinv.accepted, hinv.visible⟩,
        ⟨rfl, rfl, rfl⟩, by simp, rfl⟩
  | submit draw =>
    obtain ⟨⟨fs, ring, evs⟩, hsub, heq⟩ := Option.map_eq_some_iff.mp h
    cases heq
    have hacc : Accounted { w.ring with sq := [] } w.now tr :=
      ⟨hinv.accounted.tracked, hinv.accounted.ready⟩
    obtain ⟨hsame, hacc', hlen, hcount, hyld, hex⟩ :=
      schedulePending_accounted w.now draw w.ring.sq hacc hinv.accepted hsub
    exact ⟨⟨hacc', hlen.symm, Nat.le_trans hinv.visible hcount⟩, ⟨hyld, hsame, rfl⟩, hex, rfl⟩
  | sync =>
    cases h
    rw [List.append_nil]
    exact ⟨⟨hinv.accounted, hinv.accepted, Nat.le_refl _⟩, ⟨rfl, rfl, rfl⟩, trivial⟩
  | next order draws =>
    cases nextCqe_nexts hinv h with
    | exhausted hv =>
      refine ⟨⟨⟨?_, hinv.accounted.ready⟩, ?_, hinv.visible⟩, Or.inl ⟨rfl, rfl, rfl⟩,
        Or.inl ⟨hv, rfl⟩⟩
      · exact hinv.accounted.tracked.exhausted
      · rw [acceptedIn_append]
        exact hinv.accepted.trans (by simp [acceptedIn])
    | yielded c r n fs mem result hv hpool hwhen hready hexec =>
      have htracked := (hinv.accounted.tracked.reorder hpool).yield hwhen result
      refine ⟨⟨⟨htracked, hready⟩, ?_, ?_⟩, Or.inr ⟨c, result, rfl, hexec⟩, Or.inr ⟨by simp, ?_⟩⟩
      · rw [acceptedIn_append]
        exact hinv.accepted.trans (by simp [acceptedIn])
      · have hvis := hinv.visible
        rw [hv, RingState.readyCqCount_eq hinv.accounted.ready, ← hpool.countP_eq,
          List.countP_cons, if_pos (decide_eq_true hwhen)] at hvis
        rw [RingState.readyCqCount_eq hready]
        exact Nat.le_of_succ_le_succ hvis
      · rw [hv]
        rfl
  | advance d =>
    cases h
    rw [List.append_nil]
    have hlater : ∀ c : ScheduledCqe, c.when ≤ w.now → c.when ≤ w.now + d := fun c hc =>
      Nat.le_add_right_of_le hc
    refine ⟨⟨⟨hinv.accounted.tracked, fun c hc => hlater c (hinv.accounted.ready c hc)⟩,
      hinv.accepted, Nat.le_trans hinv.visible ?_⟩, ⟨rfl, rfl, rfl⟩, by simp, rfl⟩
    refine Nat.add_le_add_left (List.countP_mono_left fun c _ hc => ?_) _
    exact decide_eq_true (hlater c (of_decide_eq_true hc))
  | outside fs mem =>
    cases h
    rw [List.append_nil]
    exact ⟨⟨hinv.accounted, hinv.accepted, hinv.visible⟩, rfl, by simp, rfl⟩

theorem Inv.run {ops : List RingOp} : ∀ {w w' : World} {tr evs : List Event}, Inv w tr →
    w.run ops = some (w', evs) → Inv w' (tr ++ evs) := by
  induction ops with
  | nil =>
    intro w w' tr evs hinv h
    cases h
    rwa [List.append_nil]
  | cons op ops ih =>
    intro w w' tr evs hinv h
    obtain ⟨⟨w1, ev1⟩, h1, h⟩ := Option.bind_eq_some_iff.mp h
    obtain ⟨⟨w2, ev2⟩, h2, heq⟩ := Option.map_eq_some_iff.mp h
    cases heq
    rw [← List.append_assoc]
    exact ih (hinv.step h1).1 h2

def RingOp.isSync : RingOp → Bool
  | .sync => true
  | _ => false

def RingOp.isNext : RingOp → Bool
  | .next _ _ => true
  | _ => false

/-- Until the next `sync`, as many calls of `next` as are visible all yield. -/
theorem Inv.drains {ops : List RingOp} : ∀ {w w' : World} {tr evs : List Event}, Inv w tr →
    (∀ op ∈ ops, op.isSync = false) → ops.countP RingOp.isNext ≤ w.visible.getD 0 →
    w.run ops = some (w', evs) → .exhausted ∉ evs := by
  induction ops with
  | nil =>
    intro w w' tr evs _ _ _ h
    cases h
    simp
  | cons op ops ih =>
    intro w w' tr evs hinv hsync hcount h
    obtain ⟨⟨w1, ev1⟩, h1, h⟩ := Option.bind_eq_some_iff.mp h
    obtain ⟨⟨w2, ev2⟩, h2, heq⟩ := Option.map_eq_some_iff.mp h
    cases heq
    obtain ⟨hinv1, -, hexp⟩ := hinv.step h1
    have hop := hsync op (by simp)
    have hone : .exhausted ∉ ev1 ∧ ops.countP RingOp.isNext ≤ w1.visible.getD 0 := by
      rw [List.countP_cons] at hcount
      cases op with
      | next order draws =>
        simp only [RingOp.isNext, if_true] at hcount
        rcases hexp with ⟨hzero, -⟩ | ⟨hex, hdec⟩
        · omega
        · exact ⟨hex, by omega⟩
      | sync => cases hop
      | push => exact ⟨hexp.1, by rw [hexp.2]; exact hcount⟩
      | submit => exact ⟨hexp.1, by rw [hexp.2]; exact hcount⟩
      | advance => exact ⟨hexp.1, by rw [hexp.2]; exact hcount⟩
      | outside => exact ⟨hexp.1, by rw [hexp.2]; exact hcount⟩
    have hrest := ih hinv1 (fun op hop => hsync op (List.mem_cons_of_mem _ hop)) hone.2 h2
    exact fun hmem => (List.mem_append.mp hmem).elim hone.1 hrest

/-! ## 6. The theorem -/

/-- What holds at every point of a run. -/
structure ExactlyOnce (w : World) (tr : List Event) : Prop where
  /-- The tags accepted are the tags yielded, ready and in flight, with multiplicity. -/
  userData : ((yieldsIn tr).map (·.userData) ++ w.ring.ready.map (·.userData)
    ++ w.ring.inflight.map (·.userData)).Perm ((acceptedIn tr).map (·.1.userData))
  /-- No accepted entry is answered twice. -/
  once : ((yieldsIn tr).map (·.sqe)).Nodup
  /-- A completion answers its entry: with the entry's own operation, at its scheduled time or
  later, when no cancel took it out; otherwise with an error code, which has no effect. -/
  answers : ∀ c result time, .yielded c result time ∈ tr →
    ∃ e due, (acceptedIn tr)[c.sqe]? = some (e, due) ∧ c.userData = e.userData
      ∧ ((e.operation = some c.apply ∧ due ≤ time ∧ .removed c.sqe ∉ tr)
        ∨ ((∃ err, c.apply = .immediateError err) ∧ (e.operation = none ∨ .removed c.sqe ∈ tr)))

theorem range_map_getElem? {α β : Type} (f : α → β) (d : β) (l : List α) :
    (List.range l.length).map (fun i => (l[i]?.map f).getD d) = l.map f := by
  refine List.ext_getElem (by simp) fun i h1 h2 => ?_
  have hi : i < l.length := by simpa using h2
  simp [List.getElem?_eq_getElem hi]

theorem Inv.exactlyOnce {w : World} {tr : List Event} (hinv : Inv w tr) : ExactlyOnce w tr := by
  have htracked := hinv.accounted.tracked
  constructor
  · have hperm := htracked.tags.map fun i => ((acceptedIn tr)[i]?.map (·.1.userData)).getD 0
    rw [range_map_getElem?, List.map_map] at hperm
    rw [List.append_assoc, ← List.map_append, ← List.map_append]
    refine (List.Perm.of_eq ?_).trans hperm
    refine List.map_congr_left fun c hc => ?_
    obtain ⟨e, due, hget, hud, -⟩ := htracked.answers c hc
    simp [hget, hud]
  · have hnodup := htracked.tags.nodup_iff.mpr List.nodup_range
    rw [List.map_append] at hnodup
    exact (List.nodup_append.mp hnodup).1
  · intro c result time hmem
    have hc : c ∈ yieldsIn tr := List.mem_filterMap.mpr ⟨_, hmem, rfl⟩
    obtain ⟨e, due, hget, hud, hkind⟩ := htracked.answers c (List.mem_append_left _ hc)
    refine ⟨e, due, hget, hud, hkind.imp_left fun hk => ⟨hk.1, ?_, hk.2.2⟩⟩
    exact hk.2.1 ▸ htracked.due c result time hmem

/-- **Exactly-once completion.**  After every run of a ring: every accepted entry is in one of the
three places and is answered at most once, and an operation's own result comes only after its
scheduled time and never for an entry that was rejected or cancelled; whatever is called next, the
filesystem changes by the operation of the completion yielded and by nothing else; what `sync`
exposed can be drained; and while some of it is left, `next` finds a completion, and does not return
only where the operation of that completion ends the process. -/
theorem exactly_once (depth : Nat) (fs : FsState) (mem : Memory) (now : Duration)
    (ops : List RingOp) {w : World} {tr : List Event}
    (h : (World.new depth fs mem now).run ops = some (w, tr)) :
    ExactlyOnce w tr
      ∧ (∀ op w' ev, w.step op = some (w', ev) → Effects w op w' ev)
      ∧ (∀ n, w.visible = some n → ∀ ops' w' tr', (∀ op ∈ ops', op.isSync = false) →
          ops'.countP RingOp.isNext ≤ n → w.run ops' = some (w', tr') → .exhausted ∉ tr')
      ∧ ∀ order, w.visible.getD 0 ≠ 0 → ∃ c r, w.ring.popReady w.now order = (r, some c)
        ∧ ∀ draws, w.step (.next order draws) = none
          ↔ c.apply.execute w.fs w.mem draws w.now = none := by
  have hinv : Inv w tr := (Inv.new depth fs mem now).run h
  refine ⟨hinv.exactlyOnce, fun op w' ev hstep => (hinv.step hstep).2.1, ?_,
    fun order hv => hinv.next_eq_none hv order⟩
  intro n hn ops' w' tr' hsync hcount hrun
  exact hinv.drains hsync (by rw [hn]; exact hcount) hrun

/-- Two operations with the same tag, and a cancel of that tag: it takes out the first. -/
def cancelRun : List RingOp :=
  let draws : Draws := ⟨⟨false, none, none⟩, ⟨false, false⟩, false⟩
  [.push ⟨.fsync simFdBase, 1, ⟨0⟩⟩, .push ⟨.fsync simFdBase, 1, ⟨0⟩⟩,
    .push ⟨.asyncCancel 1, 2, ⟨0⟩⟩, .submit fun _ => ⟨false, 5⟩, .advance 5, .sync,
    .next (fun _ => Equiv.refl _) draws]

theorem exactly_once_cancelRun : ∃ w tr,
    (World.new 4 logFile.1 (fun _ => 0) 0).run cancelRun = some (w, tr)
      ∧ (acceptedIn tr).length = 3 ∧ .removed 0 ∈ tr ∧ (yieldsIn tr).length = 1
      ∧ w.visible = some 2 ∧ ExactlyOnce w tr
      ∧ ∀ order, ∃ c r, w.ring.popReady w.now order = (r, some c) := by
  have hval : ((World.new 4 logFile.1 (fun _ => 0) 0).run cancelRun).map (fun r =>
      ((acceptedIn r.2).length, decide (Event.removed 0 ∈ r.2), (yieldsIn r.2).length, r.1.visible))
        = some (3, true, 1, some 2) := by
    decide +kernel
  obtain ⟨⟨w, tr⟩, hrun, heq⟩ := Option.map_eq_some_iff.mp hval
  simp only [Prod.mk.injEq, decide_eq_true_eq] at heq
  obtain ⟨honce, -, -, hpops⟩ := exactly_once 4 _ _ 0 cancelRun hrun
  refine ⟨w, tr, hrun, heq.1, heq.2.1, heq.2.2.1, heq.2.2.2, honce, fun order => ?_⟩
  obtain ⟨c, r, hpop, -⟩ := hpops order (by rw [heq.2.2.2]; decide)
  exact ⟨c, r, hpop⟩

end Turmoil.Uring
