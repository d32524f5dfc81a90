/-
# A cancellation is decided once

A cancel looks for its target's tag in the two pools.  What it is meant to find there is an
operation that has not run; but the pools also hold completions that are decided: rejections, the
answers of earlier cancels, and the `ECANCELED` an earlier cancel has left in the place of its
target.  A cancel that finds one of these throws it away, reports success and posts `ECANCELED` in
its name.

Where no cancel finds a decided completion, what the entries complete with is decided once
(`cancellation_decided_once`): at most one cancel of an operation succeeds, it does exactly if the
operation completes with `ECANCELED`, every other cancel reports `ENOENT`, and no result that is
posted changes afterwards.
-/
import Turmoil.Uring.Once

namespace Turmoil.Uring

open Fs

/-! ## 1. What a run shows -/

/-- The accepted entry with this number. -/
def entryOf (tr : List Event) (i : Nat) : Option Entry := (acceptedIn tr)[i]?.map (·.1)

/-- The tag a cancel looks for; none for other operations and for flags that are rejected. -/
def Entry.target (e : Entry) : Option UInt64 :=
  if e.flags.hasUnsupported then none
  else
    match e.op with
    | .asyncCancel t => some t
    | _ => none

/-- Entry `j` is a cancel of entry `i`. -/
def Cancels (tr : List Event) (j i : Nat) : Prop :=
  ∃ f e, entryOf tr j = some f ∧ entryOf tr i = some e ∧ f.target = some e.userData

/-- Entry `i` is a read, a write or an fsync that is not rejected. -/
def IsOperation (tr : List Event) (i : Nat) : Prop :=
  ∃ e op, entryOf tr i = some e ∧ e.operation = some op

/-- The completion of entry `i` has been yielded with this result, or is posted with it. -/
def Completes (w : World) (tr : List Event) (i : Nat) (r : Int) : Prop :=
  (∃ c t, .yielded c r t ∈ tr ∧ c.sqe = i)
    ∨ ∃ c ∈ w.ring.pool, c.sqe = i ∧ c.apply = .immediateError r

/-- The completion of entry `i` was yielded before entry `j` was accepted. -/
def YieldedBefore (tr : List Event) (i j : Nat) : Prop :=
  ∃ a b e due, tr = a ++ .accepted e due :: b ∧ (acceptedIn a).length = j
    ∧ ∃ c ∈ yieldsIn a, c.sqe = i

/-- What the entries of a run complete with. -/
structure DecidedOnce (w : World) (tr : List Event) : Prop where
  /-- At most one cancel of an operation succeeds. -/
  one : ∀ i j k, IsOperation tr i → Cancels tr j i → Cancels tr k i → Completes w tr j 0 →
    Completes w tr k 0 → j = k
  /-- One does exactly if the operation completes with `ECANCELED`. -/
  cancelled : ∀ i, IsOperation tr i →
    ((∃ j, Cancels tr j i ∧ Completes w tr j 0) ↔ Completes w tr i (-ecanceled))
  /-- Every other cancel reports `ENOENT`. -/
  missed : ∀ j f t, entryOf tr j = some f → f.target = some t → ¬ Completes w tr j 0 →
    Completes w tr j (-enoent)
  /-- A cancel of a rejected entry, of a cancel, or of what had been yielded is one of these. -/
  rejected : ∀ i j, Cancels tr j i → ¬ IsOperation tr i → ¬ Completes w tr j 0
  late : ∀ i j, Cancels tr j i → YieldedBefore tr i j → ¬ Completes w tr j 0
  /-- A rejected entry completes with `EINVAL` all the same, and an operation that no cancel took
  runs as it is. -/
  einval : ∀ i e, entryOf tr i = some e → e.flags.hasUnsupported = true →
    Completes w tr i (-einval)
  runs : ∀ c r t e op, .yielded c r t ∈ tr → entryOf tr c.sqe = some e → e.operation = some op →
    (¬ ∃ j, Cancels tr j c.sqe ∧ Completes w tr j 0) → c.apply = op
  /-- No entry has two results. -/
  unique : ∀ i r r', Completes w tr i r → Completes w tr i r' → r = r'

/-! ## 2. The condition -/

/-- Is the result decided? -/
def PendingApply.isDecided : PendingApply → Bool
  | .immediateError _ => true
  | _ => false

/-- No number of bytes that the operation can move is `-ECANCELED` as an `i32`. -/
def PendingApply.isSmall : PendingApply → Bool
  | .read _ _ len _ => len < 2 ^ 32 - 125
  | .write _ _ len _ => len < 2 ^ 32 - 125
  | _ => true

/-- The condition on an entry whose turn it is: a cancel finds nothing decided. -/
def turnOk (ring : RingState) (entry : Entry) : Bool :=
  match entry.target with
  | some t => ring.pool.all fun c => !(c.userData == t && c.apply.isDecided)
  | none => entry.operation.all PendingApply.isSmall

def batchOk (now : Duration) (draw : Nat → LatencyDraw) :
    FsState → RingState → Nat → List Entry → Bool
  | _, _, _, [] => true
  | fs, ring, sqe, entry :: entries =>
    turnOk ring entry && match scheduleEntry fs ring now (draw sqe) sqe entry with
      | none => true
      | some (fs, ring, _) => batchOk now draw fs ring (sqe + 1) entries

def World.stepOk (w : World) : RingOp → Bool
  | .submit draw => batchOk w.now draw w.fs { w.ring with sq := [] } w.accepted w.ring.sq
  | _ => true

/-- Every cancel of a run meets the condition when its turn comes. -/
def World.runOk (w : World) : List RingOp → Bool
  | [] => true
  | op :: ops =>
    w.stepOk op && match w.step op with
      | none => true
      | some (w, _) => w.runOk ops

/-! ## 3. The results of operations -/

theorem Entry.target_eq_none {e : Entry} {op : PendingApply} (h : e.operation = some op) :
    e.target = none := by
  unfold Entry.operation at h
  unfold Entry.target
  split at h
  · cases h
  · rename_i hflags
    rw [if_neg hflags]
    split
    · rename_i hop
      rw [hop] at h
      cases h
    · rfl

theorem Entry.operation_not_decided {e : Entry} {op : PendingApply} (h : e.operation = some op) :
    op.isDecided = false := by
  unfold Entry.operation at h
  split at h
  · cases h
  · split at h <;> cases h <;> rfl

theorem Entry.rejected_no_target {e : Entry} (h : e.flags.hasUnsupported = true) :
    e.target = none ∧ e.operation = none := by
  simp [Entry.target, Entry.operation, h]

/-- A count below 2^32 - 125 is not an `ECANCELED`. -/
theorem asI32_ne_ecanceled {n : Nat} (h : n < 2 ^ 32 - 125) : asI32 n ≠ -ecanceled := by
  have hn : (BitVec.ofNat 32 n).toNat = n := by
    rw [BitVec.toNat_ofNat, Nat.mod_eq_of_lt (by omega)]
  rw [asI32, BitVec.toInt_eq_toNat_cond, hn, ecanceled]
  split <;> omega

/-- What a read through the ring can return. -/
theorem execRead_result {s s' : FsState} {fd : RawFd} {ptr offset : Nat} {buf buf' : List UInt8}
    {faults : Shim.ReadFaults} {r : Int}
    (h : execRead s fd ptr buf offset faults = (s', buf', some r)) :
    r = -ebadf ∨ r = -einval ∨ r = -eio ∨ ∃ n ≤ buf.length, r = asI32 n := by
  unfold execRead at h
  split at h
  · cases h
    exact Or.inl rfl
  · split at h
    · cases h
      exact Or.inr (Or.inl rfl)
    · split at h
      · cases h
        exact Or.inr (Or.inr (Or.inl rfl))
      · split at h
        · cases h
        · rename_i filled hfill
          have hle := Nat.le_trans (faulted_le faults buf filled) (readFile_length_le hfill)
          have hr : some (asI32 (faulted faults buf filled).2) = some r :=
            congrArg (fun x => x.2.2) h
          exact Or.inr (Or.inr (Or.inr ⟨_, hle, (Option.some.inj hr).symm⟩))

/-- What a write through the ring can return. -/
theorem execWrite_result {s s' : FsState} {fd : RawFd} {ptr offset : Nat} {buf : List UInt8}
    {faults : WriteFaults} {now : Duration} {r : Int}
    (h : execWrite s fd ptr buf offset faults now = (s', some r)) :
    r = -ebadf ∨ r = -einval ∨ r = -eio ∨ r = -enospc ∨ r = asI32 buf.length := by
  unfold execWrite at h
  split at h
  · cases h
    exact Or.inl rfl
  · split at h
    · cases h
      exact Or.inr (Or.inl rfl)
    · split at h
      · cases h
        exact Or.inr (Or.inr (Or.inl rfl))
      · split at h
        · cases h
        · split at h
          · cases h
          · dsimp only at h
            split at h
            · cases h
              exact Or.inr (Or.inr (Or.inr (Or.inl rfl)))
            · cases h
              exact Or.inr (Or.inr (Or.inr (Or.inr rfl)))

theorem execFsync_result {s : FsState} (fd : RawFd) (ioError : Bool) :
    (execFsync s fd ioError).2 = 0 ∨ (execFsync s fd ioError).2 = -ebadf
      ∨ (execFsync s fd ioError).2 = -eio := by
  unfold execFsync
  split
  · exact Or.inr (Or.inl rfl)
  · split
    · exact Or.inr (Or.inr rfl)
    · split
      · exact Or.inl rfl
      · exact Or.inr (Or.inr rfl)

theorem length_slice (mem : Memory) (ptr len : Nat) : (slice mem ptr len).length = len := by
  simp [slice]

/-- **What a completion reports when it is yielded**: a decided one its result, an operation never
`ECANCELED`. -/
theorem execute_result {apply : PendingApply} {fs fs' : FsState} {mem mem' : Memory} {draws : Draws}
    {now : Duration} {r : Int} (h : apply.execute fs mem draws now = some (fs', mem', r)) :
    apply = .immediateError r
      ∨ (apply.isDecided = false ∧ (apply.isSmall = true → r ≠ -ecanceled)) := by
  have hcodes : -ebadf ≠ -ecanceled ∧ -einval ≠ -ecanceled ∧ -eio ≠ -ecanceled := by decide
  cases apply with
  | immediateError err =>
    cases h
    exact Or.inl rfl
  | read fd ptr len offset =>
    refine Or.inr ⟨rfl, fun hsmall => ?_⟩
    rw [PendingApply.execute] at h
    split at h
    · cases h
    · rename_i fs1 buf result hread
      cases h
      rcases execRead_result hread with rfl | rfl | rfl | ⟨n, hn, rfl⟩
      · exact hcodes.1
      · exact hcodes.2.1
      · exact hcodes.2.2
      · rw [length_slice] at hn
        exact asI32_ne_ecanceled
          (Nat.lt_of_le_of_lt hn (by simpa [PendingApply.isSmall] using hsmall))
  | write fd ptr len offset =>
    refine Or.inr ⟨rfl, fun hsmall => ?_⟩
    rw [PendingApply.execute] at h
    split at h
    · cases h
    · rename_i fs1 result hwrite
      cases h
      have hcases := execWrite_result hwrite
      rcases hcases with rfl | rfl | rfl | rfl | rfl
      · exact hcodes.1
      · exact hcodes.2.1
      · exact hcodes.2.2
      · decide
      · rw [length_slice]
        exact asI32_ne_ecanceled (by simpa [PendingApply.isSmall] using hsmall)
  | fsync fd =>
    refine Or.inr ⟨rfl, fun _ => ?_⟩
    have hr : (execFsync fs fd draws.fsyncError).2 = r :=
      congrArg (fun x => x.2.2) (Option.some.inj h)
    rcases execFsync_result (s := fs) fd draws.fsyncError with he | he | he <;> rw [← hr, he]
    · decide
    · exact hcodes.1
    · exact hcodes.2.2

/-! ## 4. The invariant -/

/-- What the completion of an entry is, given what has been taken out so far. -/
inductive Verdict (tr : List Event) (i : Nat) (e : Entry) : PendingApply → Prop where
  | operation (op : PendingApply) (hop : e.operation = some op) (hsmall : op.isSmall = true)
      (htaken : .removed i ∉ tr) : Verdict tr i e op
  | cancelled (op : PendingApply) (hop : e.operation = some op) (htaken : .removed i ∈ tr) :
      Verdict tr i e (.immediateError (-ecanceled))
  | rejected (hflags : e.flags.hasUnsupported = true) : Verdict tr i e (.immediateError (-einval))
  | found (t : UInt64) (ht : e.target = some t) : Verdict tr i e (.immediateError 0)
  | missed (t : UInt64) (ht : e.target = some t) : Verdict tr i e (.immediateError (-enoent))

/-- No completion tagged `t` had been yielded when entry `j` was accepted. -/
def FreshAt (tr : List Event) (j : Nat) (t : UInt64) : Prop :=
  ∃ a b e due, tr = a ++ .accepted e due :: b ∧ (acceptedIn a).length = j
    ∧ ∀ d ∈ yieldsIn a, d.userData ≠ t

/-- A successful cancel: which operation it took, and that it was still there. -/
def Took (tr : List Event) (j : Nat) (t : UInt64) : Prop :=
  ∃ i e, entryOf tr i = some e ∧ e.userData = t ∧ (∃ op, e.operation = some op)
    ∧ .removed i ∈ tr ∧ FreshAt tr j t

/-- The completions in the pools and those yielded are what the trace decides. -/
structure Decided (pool : List ScheduledCqe) (tr : List Event) : Prop where
  results : ∀ c r t, .yielded c r t ∈ tr →
    c.apply = .immediateError r ∨ (c.apply.isDecided = false ∧ r ≠ -ecanceled)
  verdict : ∀ c ∈ yieldsIn tr ++ pool, ∀ e, entryOf tr c.sqe = some e → Verdict tr c.sqe e c.apply
  taken : ∀ i e, .removed i ∈ tr → entryOf tr i = some e → ∃ d ∈ yieldsIn tr ++ pool, ∃ f,
    entryOf tr d.sqe = some f ∧ f.target = some e.userData ∧ d.apply = .immediateError 0
  found : ∀ d ∈ yieldsIn tr ++ pool, ∀ f t, entryOf tr d.sqe = some f → f.target = some t →
    d.apply = .immediateError 0 → Took tr d.sqe t
  single : ∀ d ∈ yieldsIn tr ++ pool, ∀ d' ∈ yieldsIn tr ++ pool, ∀ f f',
    entryOf tr d.sqe = some f → entryOf tr d'.sqe = some f' → f.target = f'.target →
    d.apply = .immediateError 0 → d'.apply = .immediateError 0 → d.sqe = d'.sqe

/-- The tags of the accepted entries are distinct. -/
def Distinct (tr : List Event) : Prop := ((acceptedIn tr).map (·.1.userData)).Nodup

section Traces

variable {tr ev : List Event} {i j : Nat} {e f : Entry}

theorem entryOf_append (h : entryOf tr i = some e) : entryOf (tr ++ ev) i = some e := by
  obtain ⟨p, hp, rfl⟩ := Option.map_eq_some_iff.mp h
  rw [entryOf, acceptedIn_append, List.getElem?_append_left (List.getElem?_eq_some_iff.mp hp).1, hp]
  rfl

theorem entryOf_append_of_lt (h : i < (acceptedIn tr).length) :
    entryOf (tr ++ ev) i = entryOf tr i := by
  rw [entryOf, acceptedIn_append, List.getElem?_append_left h, entryOf]

theorem entryOf_lt (h : entryOf tr i = some e) : i < (acceptedIn tr).length := by
  obtain ⟨p, hp, -⟩ := Option.map_eq_some_iff.mp h
  exact (List.getElem?_eq_some_iff.mp hp).1

/-- The entry accepted last. -/
theorem entryOf_accepted {due : Duration} (h : acceptedIn ev = [(e, due)]) :
    entryOf (tr ++ ev) (acceptedIn tr).length = some e := by
  rw [entryOf, acceptedIn_append, h, List.getElem?_concat_length]
  rfl

theorem Distinct.of_append (h : Distinct (tr ++ ev)) : Distinct tr := by
  rw [Distinct, acceptedIn_append, List.map_append] at h
  exact (List.nodup_append.mp h).1

/-- Entries with one tag are one entry. -/
theorem Distinct.eq (h : Distinct tr) (hi : entryOf tr i = some e) (hj : entryOf tr j = some f)
    (hud : e.userData = f.userData) : i = j := by
  obtain ⟨p, hp, rfl⟩ := Option.map_eq_some_iff.mp hi
  obtain ⟨q, hq, rfl⟩ := Option.map_eq_some_iff.mp hj
  obtain ⟨hilt, hp⟩ := List.getElem?_eq_some_iff.mp hp
  obtain ⟨hjlt, hq⟩ := List.getElem?_eq_some_iff.mp hq
  have hget : ((acceptedIn tr).map (·.1.userData)).get ⟨i, by simpa using hilt⟩
      = ((acceptedIn tr).map (·.1.userData)).get ⟨j, by simpa using hjlt⟩ := by
    simp [hp, hq, hud]
  exact congrArg Fin.val (List.nodup_iff_injective_get.mp h hget)

theorem FreshAt.append {t : UInt64} (h : FreshAt tr j t) : FreshAt (tr ++ ev) j t := by
  obtain ⟨a, b, e, due, rfl, hlen, hno⟩ := h
  exact ⟨a, b ++ ev, e, due, by simp, hlen, hno⟩

theorem Took.append {t : UInt64} (h : Took tr j t) : Took (tr ++ ev) j t := by
  obtain ⟨i, e, he, hud, hop, htaken, hfresh⟩ := h
  exact ⟨i, e, entryOf_append he, hud, hop, List.mem_append_left _ htaken, hfresh.append⟩

theorem Verdict.append {apply : PendingApply} (h : Verdict tr i e apply) (hev : .removed i ∉ ev) :
    Verdict (tr ++ ev) i e apply := by
  cases h with
  | operation op hop hsmall htaken =>
    exact .operation _ hop hsmall fun h => (List.mem_append.mp h).elim htaken hev
  | cancelled op hop htaken => exact .cancelled op hop (List.mem_append_left _ htaken)
  | rejected hflags => exact .rejected hflags
  | found t ht => exact .found t ht
  | missed t ht => exact .missed t ht

/-- Where an entry was accepted in the trace. -/
theorem accepted_unique {a a' b b' : List Event} {e e' : Entry} {due due' : Duration}
    (h : a ++ .accepted e due :: b = a' ++ .accepted e' due' :: b')
    (hlen : (acceptedIn a).length = (acceptedIn a').length) : a = a' := by
  rcases List.append_eq_append_iff.mp h with ⟨c, rfl, hc⟩ | ⟨c, rfl, hc⟩
  · cases c with
    | nil => simp
    | cons x c =>
      obtain ⟨rfl, -⟩ := List.cons.inj hc
      rw [acceptedIn_append, List.length_append] at hlen
      simp [acceptedIn] at hlen
  · cases c with
    | nil => simp
    | cons x c =>
      obtain ⟨rfl, -⟩ := List.cons.inj hc
      rw [acceptedIn_append, List.length_append] at hlen
      simp [acceptedIn] at hlen

end Traces

/-! ## 5. The moves -/

theorem Tracked.entry {pool : List ScheduledCqe} {tr : List Event} (h : Tracked pool tr)
    {c : ScheduledCqe} (hc : c ∈ yieldsIn tr ++ pool) :
    ∃ e, entryOf tr c.sqe = some e ∧ c.userData = e.userData := by
  obtain ⟨e, due, hget, hud, -⟩ := h.answers c hc
  exact ⟨e, by rw [entryOf, hget]; rfl, hud⟩

namespace Decided

variable {pool pool' : List ScheduledCqe} {tr ev : List Event} {c : ScheduledCqe}

theorem nil : Decided [] [] where
  results := fun _ _ _ h => nomatch h
  verdict := fun _ h => nomatch h
  taken := fun _ _ h => nomatch h
  found := fun _ h => nomatch h
  single := fun _ h => nomatch h

/-- Nothing is accepted and nothing taken out: yielding, reordering, doing nothing. -/
theorem same (h : Decided pool tr) (hacc : acceptedIn ev = []) (hrem : ∀ i, .removed i ∉ ev)
    (hmem : ∀ x, x ∈ yieldsIn (tr ++ ev) ++ pool' ↔ x ∈ yieldsIn tr ++ pool)
    (hres : ∀ c r t, .yielded c r t ∈ ev →
      c.apply = .immediateError r ∨ (c.apply.isDecided = false ∧ r ≠ -ecanceled)) :
    Decided pool' (tr ++ ev) := by
  have hentry : ∀ i, entryOf (tr ++ ev) i = entryOf tr i := fun i => by
    rw [entryOf, acceptedIn_append, hacc, List.append_nil, entryOf]
  have hremoved : ∀ i, .removed i ∈ tr ++ ev → .removed i ∈ tr := fun i hi =>
    (List.mem_append.mp hi).resolve_right (hrem i)
  constructor
  · exact fun c r t hc => (List.mem_append.mp hc).elim (h.results c r t) (hres c r t)
  · intro x hx e he
    rw [hentry] at he
    exact (h.verdict x ((hmem x).mp hx) e he).append (hrem _)
  · intro i e hi he
    rw [hentry] at he
    obtain ⟨d, hd, f, hf, hrest⟩ := h.taken i e (hremoved i hi) he
    exact ⟨d, (hmem d).mpr hd, f, by rw [hentry]; exact hf, hrest⟩
  · intro d hd f t hf ht hzero
    rw [hentry] at hf
    exact (h.found d ((hmem d).mp hd) f t hf ht hzero).append
  · intro d hd d' hd' f f' hf hf' ht
    rw [hentry] at hf hf'
    exact h.single d ((hmem d).mp hd) d' ((hmem d').mp hd') f f' hf hf' ht

theorem reorder (h : Decided pool tr) (hp : pool'.Perm pool) : Decided pool' tr := by
  have hmem : ∀ x, x ∈ yieldsIn (tr ++ []) ++ pool' ↔ x ∈ yieldsIn tr ++ pool := fun x => by
    rw [List.append_nil]
    exact (hp.append_left _).mem_iff
  have hrem : ∀ i, Event.removed i ∉ ([] : List Event) := fun _ => List.not_mem_nil
  have := h.same rfl hrem hmem (fun _ _ _ h => nomatch h)
  rwa [List.append_nil] at this

theorem exhausted (h : Decided pool tr) : Decided pool (tr ++ [.exhausted]) :=
  h.same rfl (by simp) (fun x => by rw [yieldsIn_append]; simp [yieldsIn]) (by simp)

theorem yield (h : Decided (c :: pool) tr) {result : Int} {now : Duration}
    (hres : c.apply = .immediateError result ∨ (c.apply.isDecided = false ∧ result ≠ -ecanceled)) :
    Decided pool (tr ++ [.yielded c result now]) := by
  refine h.same rfl (by simp) (fun x => ?_) ?_
  · rw [yieldsIn_append, List.append_assoc]
    rfl
  · intro d r t hd
    cases List.mem_singleton.mp hd
    exact hres

/-- An entry is accepted, and its completion is no success of a cancel. -/
theorem accept (h : Decided pool tr) (htr : Tracked pool tr) {e : Entry} {due : Duration}
    (hsqe : c.sqe = (acceptedIn tr).length)
    (hkind : Verdict (tr ++ [.accepted e due]) c.sqe e c.apply)
    (hzero : c.apply ≠ .immediateError 0) :
    Decided (pool ++ [c]) (tr ++ [.accepted e due]) := by
  have hyld : yieldsIn (tr ++ [.accepted e due]) = yieldsIn tr := by
    rw [yieldsIn_append]
    exact List.append_nil _
  have hmem : ∀ x, x ∈ yieldsIn (tr ++ [.accepted e due]) ++ (pool ++ [c])
      ↔ x ∈ yieldsIn tr ++ pool ∨ x = c := fun x => by
    rw [hyld, ← List.append_assoc, List.mem_append, List.mem_singleton]
  have hold : ∀ x ∈ yieldsIn tr ++ pool,
      entryOf (tr ++ [.accepted e due]) x.sqe = entryOf tr x.sqe := fun x hx =>
    entryOf_append_of_lt (htr.sqe_lt hx)
  have hnew : entryOf (tr ++ [.accepted e due]) c.sqe = some e := hsqe ▸ entryOf_accepted rfl
  have hremoved : ∀ i, .removed i ∈ tr ++ [.accepted e due] → .removed i ∈ tr := fun i hi =>
    (List.mem_append.mp hi).resolve_right (by simp)
  constructor
  · intro d r t hd
    exact h.results d r t ((List.mem_append.mp hd).resolve_right (by simp))
  · intro x hx f hf
    rcases (hmem x).mp hx with hx | rfl
    · rw [hold x hx] at hf
      exact (h.verdict x hx f hf).append (by simp)
    · rw [hnew] at hf
      cases hf
      exact hkind
  · intro i f hi hf
    rw [entryOf_append_of_lt (htr.removed i (hremoved i hi))] at hf
    obtain ⟨d, hd, f', hf', hrest⟩ := h.taken i f (hremoved i hi) hf
    exact ⟨d, (hmem d).mpr (Or.inl hd), f', by rw [hold d hd]; exact hf', hrest⟩
  · intro d hd f t hf ht hz
    rcases (hmem d).mp hd with hd | rfl
    · rw [hold d hd] at hf
      exact (h.found d hd f t hf ht hz).append
    · exact absurd hz hzero
  · intro d hd d' hd' f f' hf hf' ht hz hz'
    rcases (hmem d).mp hd with hd | rfl
    · rcases (hmem d').mp hd' with hd' | rfl
      · rw [hold d hd] at hf
        rw [hold d' hd'] at hf'
        exact h.single d hd d' hd' f f' hf hf' ht hz hz'
      · exact absurd hz' hzero
    · exact absurd hz hzero

theorem canceled_ne_zero : PendingApply.immediateError (-ecanceled) ≠ .immediateError 0 := by decide

/-- A cancel is accepted and takes the operation it is aimed at. -/
theorem cancel (h : Decided (c :: pool) tr) (htr : Tracked (c :: pool) tr) (hdist : Distinct tr)
    {e : Entry} (now : Duration) (hc : c.apply.isDecided = false)
    (ht : e.target = some c.userData) :
    Decided (pool ++ [⟨now, c.userData, .immediateError (-ecanceled), c.sqe⟩]
        ++ [⟨now, e.userData, .immediateError 0, (acceptedIn tr).length⟩])
      (tr ++ [.removed c.sqe, .accepted e now]) := by
  generalize hev : [Event.removed c.sqe, .accepted e now] = ev
  have hacc : acceptedIn ev = [(e, now)] := by rw [← hev]; rfl
  have hyld : yieldsIn (tr ++ ev) = yieldsIn tr := by
    rw [yieldsIn_append, ← hev]
    exact List.append_nil _
  have hcin : c ∈ yieldsIn tr ++ c :: pool := by simp
  have hmem : ∀ x, x ∈ yieldsIn (tr ++ ev) ++ (pool
      ++ [⟨now, c.userData, .immediateError (-ecanceled), c.sqe⟩]
      ++ [⟨now, e.userData, .immediateError 0, (acceptedIn tr).length⟩])
      ↔ x ∈ yieldsIn tr ++ pool ∨ x = ⟨now, c.userData, .immediateError (-ecanceled), c.sqe⟩
        ∨ x = ⟨now, e.userData, .immediateError 0, (acceptedIn tr).length⟩ := fun x => by
    simp only [hyld, List.mem_append, List.mem_singleton, or_assoc]
  have hbefore : ∀ x ∈ yieldsIn tr ++ pool, x ∈ yieldsIn tr ++ c :: pool := fun x hx =>
    List.perm_middle.mem_iff.mpr (List.mem_cons_of_mem _ hx)
  have hafter : ∀ x ∈ yieldsIn tr ++ c :: pool, x.apply.isDecided = true →
      x ∈ yieldsIn tr ++ pool := by
    intro x hx hdec
    rcases List.mem_cons.mp (List.perm_middle.mem_iff.mp hx) with rfl | hx
    · rw [hc] at hdec
      cases hdec
    · exact hx
  have hold : ∀ x ∈ yieldsIn tr ++ c :: pool, entryOf (tr ++ ev) x.sqe = entryOf tr x.sqe :=
    fun x hx => entryOf_append_of_lt (htr.sqe_lt hx)
  have hnew : entryOf (tr ++ ev) (acceptedIn tr).length = some e := entryOf_accepted hacc
  obtain ⟨g, hg, hud⟩ := htr.entry hcin
  -- The operation found there has not been taken before.
  obtain ⟨op, hop, huntaken⟩ : ∃ op, g.operation = some op ∧ .removed c.sqe ∉ tr := by
    generalize happ : c.apply = apply at hc
    have hv := h.verdict c hcin g hg
    rw [happ] at hv
    cases hv with
    | operation op hop hsmall htaken => exact ⟨_, hop, htaken⟩
    | _ => cases hc
  have hremoved : ∀ i, .removed i ∈ tr ++ ev → .removed i ∈ tr ∨ i = c.sqe := fun i hi => by
    simpa [← hev] using hi
  constructor
  · intro d r t hd
    exact h.results d r t ((List.mem_append.mp hd).resolve_right (by simp [← hev]))
  · intro x hx f hf
    rcases (hmem x).mp hx with hx | rfl | rfl
    · rw [hold x (hbefore x hx)] at hf
      have hne : x.sqe ≠ c.sqe := htr.ne_sqe hx
      exact (h.verdict x (hbefore x hx) f hf).append (by simp [← hev, hne])
    · rw [hold c hcin, hg] at hf
      cases hf
      exact .cancelled op hop (by simp [← hev])
    · rw [hnew] at hf
      cases hf
      exact .found _ ht
  · intro i f hi hf
    rcases hremoved i hi with hi | rfl
    · rw [entryOf_append_of_lt (htr.removed i hi)] at hf
      obtain ⟨d, hd, f', hf', htd, hz⟩ := h.taken i f hi hf
      exact ⟨d, (hmem d).mpr (Or.inl (hafter d hd (by rw [hz]; rfl))), f',
        by rw [hold d hd]; exact hf', htd, hz⟩
    · rw [hold c hcin, hg] at hf
      cases hf
      exact ⟨_, (hmem _).mpr (Or.inr (Or.inr rfl)), e, hnew, hud ▸ ht, rfl⟩
  · intro d hd f t hf htf hz
    rcases (hmem d).mp hd with hd | rfl | rfl
    · rw [hold d (hbefore d hd)] at hf
      exact (h.found d (hbefore d hd) f t hf htf hz).append
    · exact absurd hz canceled_ne_zero
    · rw [hnew] at hf
      cases hf
      obtain rfl : c.userData = t := Option.some.inj (ht.symm.trans htf)
      refine ⟨c.sqe, g, by rw [hold c hcin]; exact hg, hud.symm, ⟨op, hop⟩, by simp [← hev],
        tr ++ [.removed c.sqe], [], e, now, by simp [← hev], by simp [acceptedIn], ?_⟩
      intro d hd hsame
      have hd : d ∈ yieldsIn tr := by
        rw [yieldsIn_append] at hd
        simpa [yieldsIn] using hd
      obtain ⟨k, hk, hkud⟩ := htr.entry (List.mem_append_left _ hd)
      exact htr.ne_sqe (List.mem_append_left _ hd)
        (hdist.eq hk hg (by rw [← hkud, ← hud, hsame]))
  · have hown : ∀ d ∈ yieldsIn tr ++ pool, ∀ f, entryOf (tr ++ ev) d.sqe = some f →
        f.target = e.target → d.apply ≠ .immediateError 0 := by
      intro d hd f hf htf hz
      rw [hold d (hbefore d hd)] at hf
      obtain ⟨i, k, hk, hkud, -, hi, -⟩ :=
        h.found d (hbefore d hd) f c.userData hf (htf.trans ht) hz
      obtain rfl := hdist.eq hk hg (by rw [hkud, hud])
      exact huntaken hi
    intro d hd d' hd' f f' hf hf' htt hz hz'
    rcases (hmem d).mp hd with hd | rfl | rfl
    · rcases (hmem d').mp hd' with hd' | rfl | rfl
      · rw [hold d (hbefore d hd)] at hf
        rw [hold d' (hbefore d' hd')] at hf'
        exact h.single d (hbefore d hd) d' (hbefore d' hd') f f' hf hf' htt hz hz'
      · exact absurd hz' canceled_ne_zero
      · rw [hnew] at hf'
        cases hf'
        exact absurd hz (hown d hd f hf htt)
    · exact absurd hz canceled_ne_zero
    · rw [hnew] at hf
      cases hf
      rcases (hmem d').mp hd' with hd' | rfl | rfl
      · exact absurd hz' (hown d' hd' f' hf' htt.symm)
      · exact absurd hz' canceled_ne_zero
      · rfl

end Decided

/-! ## 6. Steps and runs -/

/-- Decided completions stay where they are. -/
def Stays (pool pool' : List ScheduledCqe) : Prop :=
  ∀ x ∈ pool, x.apply.isDecided = true → x ∈ pool'

theorem Stays.trans {pool pool' pool'' : List ScheduledCqe} (h : Stays pool pool')
    (h' : Stays pool' pool'') : Stays pool pool'' := fun x hx hdec => h' x (h x hx hdec) hdec

theorem Stays.schedule (r : RingState) (userData : UInt64) (when : Duration) (apply : PendingApply)
    (sqe : Nat) : Stays r.pool (r.schedule userData when apply sqe).pool := fun x hx _ => by
  rw [RingState.schedule_pool]
  exact List.mem_append_left _ hx

/-- **The turn of one entry.** -/
theorem scheduleEntry_decided {fs fs' : FsState} {ring ring' : RingState} {now : Duration}
    {draw : LatencyDraw} {entry : Entry} {tr ev : List Event}
    (h : scheduleEntry fs ring now draw (acceptedIn tr).length entry = some (fs', ring', ev))
    (htr : Tracked ring.pool tr) (hdec : Decided ring.pool tr) (hdist : Distinct tr)
    (hok : turnOk ring entry = true) :
    Decided ring'.pool (tr ++ ev) ∧ Stays ring.pool ring'.pool := by
  -- Every case but a cancel that finds its target posts one completion for the entry itself.
  have hpost : ∀ (when due : Duration) (apply : PendingApply),
      Verdict (tr ++ [.accepted entry due]) (acceptedIn tr).length entry apply →
      apply ≠ .immediateError 0 →
      Decided (ring.schedule entry.userData when apply (acceptedIn tr).length).pool
          (tr ++ [.accepted entry due])
        ∧ Stays ring.pool
          (ring.schedule entry.userData when apply (acceptedIn tr).length).pool := by
    intro when due apply hv hz
    refine ⟨?_, Stays.schedule _ _ _ _ _⟩
    rw [RingState.schedule_pool]
    exact hdec.accept htr (c := ⟨when, entry.userData, apply, (acceptedIn tr).length⟩) rfl hv hz
  have hfresh : ∀ due, .removed (acceptedIn tr).length ∉ tr ++ [.accepted entry due] := by
    intro due hmem
    have := htr.removed _ ((List.mem_append.mp hmem).resolve_right (by simp))
    omega
  have hsmall : ∀ apply, entry.operation = some apply → apply.isSmall = true := by
    intro apply hop
    rw [turnOk, Entry.target_eq_none hop, hop] at hok
    exact hok
  have hrun : ∀ (when due : Duration) (apply : PendingApply), entry.operation = some apply →
      Decided (ring.schedule entry.userData when apply (acceptedIn tr).length).pool
          (tr ++ [.accepted entry due])
        ∧ Stays ring.pool
          (ring.schedule entry.userData when apply (acceptedIn tr).length).pool := by
    intro when due apply hop
    refine hpost when due apply (.operation apply hop (hsmall apply hop) (hfresh due)) ?_
    rintro rfl
    exact absurd (Entry.operation_not_decided hop) (by simp [PendingApply.isDecided])
  unfold scheduleEntry at h
  split at h
  · rename_i hflags
    cases h
    exact hpost now now _ (.rejected hflags) (by decide)
  · rename_i hflags
    split at h
    · rename_i fd ptr len offset hop
      obtain ⟨⟨fs1, hit⟩, -, heq⟩ := Option.map_eq_some_iff.mp h
      cases heq
      exact hrun _ _ _ (by simp [Entry.operation, hflags, hop])
    · rename_i fd ptr len offset hop
      obtain ⟨fs1, -, heq⟩ := Option.map_eq_some_iff.mp h
      cases heq
      exact hrun _ _ _ (by simp [Entry.operation, hflags, hop])
    · rename_i fd hop
      cases h
      exact hrun _ _ _ (by simp [Entry.operation, hflags, hop])
    · rename_i target hop
      have htarget : entry.target = some target := by simp [Entry.target, hflags, hop]
      cases h
      unfold RingState.cancel
      cases ht : ring.takeTarget target with
      | none => exact hpost now now _ (.missed target htarget) (by decide)
      | some found =>
        obtain ⟨c, r⟩ := found
        obtain ⟨hperm, hud, -, -⟩ := RingState.takeTarget_spec now ht
        have hc : c.apply.isDecided = false := by
          rw [turnOk, htarget] at hok
          have := List.all_eq_true.mp hok c (hperm.mem_iff.mp (by simp))
          simpa [hud] using this
        refine ⟨?_, fun x hx hxdec => ?_⟩
        · have hcancel := (hdec.reorder hperm).cancel (htr.reorder hperm) hdist now hc
            (hud.symm ▸ htarget)
          rw [hud] at hcancel
          simp only [RingState.schedule_pool, Option.map_some, Option.toList_some,
            List.singleton_append]
          exact hcancel
        · simp only [RingState.schedule_pool]
          rcases List.mem_cons.mp (hperm.mem_iff.mpr hx) with rfl | hx
          · rw [hc] at hxdec
            cases hxdec
          · exact List.mem_append_left _ (List.mem_append_left _ hx)

/-- **A batch of entries**, each of which meets its condition. -/
theorem schedulePending_decided (now : Duration) (draw : Nat → LatencyDraw) :
    ∀ (entries : List Entry) {fs fs' : FsState} {ring ring' : RingState} {tr evs : List Event},
    schedulePending now draw fs ring (acceptedIn tr).length entries = some (fs', ring', evs) →
    Accounted ring now tr → Decided ring.pool tr → Distinct (tr ++ evs) →
    batchOk now draw fs ring (acceptedIn tr).length entries = true →
    Decided ring'.pool (tr ++ evs) ∧ Stays ring.pool ring'.pool := by
  intro entries
  induction entries with
  | nil =>
    intro fs fs' ring ring' tr evs h _ hdec _ _
    cases h
    rw [List.append_nil]
    exact ⟨hdec, fun _ hx _ => hx⟩
  | cons entry entries ih =>
    intro fs fs' ring ring' tr evs h hacc hdec hdist hok
    obtain ⟨⟨fs1, ring1, ev1⟩, h1, h⟩ := Option.bind_eq_some_iff.mp h
    obtain ⟨⟨fs2, ring2, ev2⟩, h2, heq⟩ := Option.map_eq_some_iff.mp h
    cases heq
    rw [← List.append_assoc] at hdist ⊢
    rw [batchOk, h1, Bool.and_eq_true] at hok
    obtain ⟨hacc1, hlen1, -⟩ := (scheduleEntry_accepts h1).2.accounted hacc rfl
    obtain ⟨hdec1, hstay1⟩ :=
      scheduleEntry_decided h1 hacc.tracked hdec hdist.of_append.of_append hok.1
    rw [← hlen1] at h2 hok
    obtain ⟨hdec2, hstay2⟩ := ih h2 hacc1 hdec1 hdist hok.2
    exact ⟨hdec2, hstay1.trans hstay2⟩

/-- What a completion reports when `next` yields it. -/
theorem Decided.result {pool : List ScheduledCqe} {tr : List Event} {c : ScheduledCqe}
    (h : Decided pool tr) (htr : Tracked pool tr) (hc : c ∈ yieldsIn tr ++ pool)
    {fs fs' : FsState} {mem mem' : Memory} {draws : Draws} {now : Duration} {r : Int}
    (hexec : c.apply.execute fs mem draws now = some (fs', mem', r)) :
    c.apply = .immediateError r ∨ (c.apply.isDecided = false ∧ r ≠ -ecanceled) := by
  refine (execute_result hexec).imp_right fun ⟨hrun, hne⟩ => ⟨hrun, hne ?_⟩
  obtain ⟨e, he, -⟩ := htr.entry hc
  generalize happ : c.apply = apply at hrun
  have hv := h.verdict c hc e he
  rw [happ] at hv
  cases hv with
  | operation op hop hsmall htaken => exact hsmall
  | _ => cases hrun

/-- **One step.** -/
theorem step_decided {w w' : World} {tr ev : List Event} {op : RingOp} (hinv : Inv w tr)
    (hdec : Decided w.ring.pool tr) (h : w.step op = some (w', ev)) (hdist : Distinct (tr ++ ev))
    (hok : w.stepOk op = true) :
    Decided w'.ring.pool (tr ++ ev)
      ∧ Stays (yieldsIn tr ++ w.ring.pool) (yieldsIn (tr ++ ev) ++ w'.ring.pool) := by
  have hquiet : ∀ ring : RingState, ring.pool = w.ring.pool → Decided ring.pool (tr ++ [])
      ∧ Stays (yieldsIn tr ++ w.ring.pool) (yieldsIn (tr ++ []) ++ ring.pool) := by
    intro ring hpool
    rw [hpool, List.append_nil]
    exact ⟨hdec, fun _ hx _ => hx⟩
  cases op with
  | push entry =>
    rw [World.step] at h
    split at h <;> cases h <;> exact hquiet _ rfl
  | submit draw =>
    obtain ⟨⟨fs, ring, evs⟩, hsub, heq⟩ := Option.map_eq_some_iff.mp h
    cases heq
    rw [World.stepOk] at hok
    rw [hinv.accepted] at hsub hok
    have hacc : Accounted { w.ring with sq := [] } w.now tr :=
      ⟨hinv.accounted.tracked, hinv.accounted.ready⟩
    obtain ⟨hdec', hstay⟩ := schedulePending_decided w.now draw w.ring.sq hsub hacc hdec hdist hok
    refine ⟨hdec', fun x hx hxdec => ?_⟩
    rw [yieldsIn_append, List.append_assoc]
    rcases List.mem_append.mp hx with hx | hx
    · exact List.mem_append_left _ hx
    · exact List.mem_append_right _ (List.mem_append_right _ (hstay x hx hxdec))
  | sync =>
    cases h
    exact hquiet _ rfl
  | advance d =>
    cases h
    exact hquiet _ rfl
  | outside fs mem =>
    cases h
    exact hquiet _ rfl
  | next order draws =>
    cases nextCqe_nexts hinv h with
    | exhausted hv =>
      refine ⟨hdec.exhausted, fun x hx _ => ?_⟩
      rw [yieldsIn_append]
      simpa [yieldsIn] using hx
    | yielded c r n fs mem result hv hpool hwhen hready hexec =>
      have hdec' := hdec.reorder hpool
      have htr' := hinv.accounted.tracked.reorder hpool
      refine ⟨hdec'.yield (hdec'.result htr' (by simp) hexec), fun x hx _ => ?_⟩
      rw [yieldsIn_append, List.append_assoc]
      exact (hpool.append_left _).mem_iff.mpr hx

/-- **A run** whose cancels all meet the condition. -/
theorem run_decided {ops : List RingOp} : ∀ {w w' : World} {tr evs : List Event}, Inv w tr →
    Decided w.ring.pool tr → w.run ops = some (w', evs) → Distinct (tr ++ evs) →
    w.runOk ops = true → Decided w'.ring.pool (tr ++ evs)
      ∧ Stays (yieldsIn tr ++ w.ring.pool) (yieldsIn (tr ++ evs) ++ w'.ring.pool) := by
  induction ops with
  | nil =>
    intro w w' tr evs _ hdec h _ _
    cases h
    rw [List.append_nil]
    exact ⟨hdec, fun _ hx _ => hx⟩
  | cons op ops ih =>
    intro w w' tr evs hinv hdec h hdist hok
    obtain ⟨⟨w1, ev1⟩, h1, h⟩ := Option.bind_eq_some_iff.mp h
    obtain ⟨⟨w2, ev2⟩, h2, heq⟩ := Option.map_eq_some_iff.mp h
    cases heq
    rw [← List.append_assoc] at hdist ⊢
    rw [World.runOk, h1, Bool.and_eq_true] at hok
    obtain ⟨hdec1, hstay1⟩ := step_decided hinv hdec h1 hdist.of_append hok.1
    obtain ⟨hdec2, hstay2⟩ := ih (hinv.step h1).1 hdec1 h2 hdist hok.2
    exact ⟨hdec2, hstay1.trans hstay2⟩

/-! ## 7. The theorem -/

section Reading

variable {w : World} {tr : List Event} {i j : Nat} {r : Int}

/-- A result that is reported belongs to the completion of the entry. -/
theorem Decided.of_completes (h : Decided w.ring.pool tr) (hc : Completes w tr i r) :
    ∃ c ∈ yieldsIn tr ++ w.ring.pool, c.sqe = i
      ∧ (c.apply = .immediateError r ∨ (c.apply.isDecided = false ∧ r ≠ -ecanceled)) := by
  rcases hc with ⟨c, t, hc, rfl⟩ | ⟨c, hc, rfl, happ⟩
  · exact ⟨c, List.mem_append_left _ (List.mem_filterMap.mpr ⟨_, hc, rfl⟩), rfl,
      h.results c r t hc⟩
  · exact ⟨c, List.mem_append_right _ hc, rfl, Or.inl happ⟩

/-- A decided completion is reported with its result. -/
theorem Decided.completes (h : Decided w.ring.pool tr) {c : ScheduledCqe}
    (hc : c ∈ yieldsIn tr ++ w.ring.pool) (happ : c.apply = .immediateError r) :
    Completes w tr c.sqe r := by
  rcases List.mem_append.mp hc with hc | hc
  · obtain ⟨ev, hev, heq⟩ := List.mem_filterMap.mp hc
    cases ev with
    | yielded d r' t =>
      cases heq
      rcases h.results c r' t hev with hr | ⟨hrun, -⟩
      · rw [happ] at hr
        cases hr
        exact Or.inl ⟨c, t, hev, rfl⟩
      · rw [happ] at hrun
        cases hrun
    | _ => cases heq
  · exact Or.inr ⟨c, hc, rfl, happ⟩

/-- Every accepted entry has its completion, and one only. -/
theorem Tracked.completion {pool : List ScheduledCqe} (h : Tracked pool tr)
    (hi : i < (acceptedIn tr).length) : ∃ c ∈ yieldsIn tr ++ pool, c.sqe = i := by
  have hmem := h.tags.mem_iff.mpr (List.mem_range.mpr hi)
  obtain ⟨c, hc, hsqe⟩ := List.mem_map.mp hmem
  exact ⟨c, hc, hsqe⟩

theorem Tracked.eq {pool : List ScheduledCqe} (h : Tracked pool tr) {c d : ScheduledCqe}
    (hc : c ∈ yieldsIn tr ++ pool) (hd : d ∈ yieldsIn tr ++ pool) (hsqe : c.sqe = d.sqe) : c = d :=
  List.inj_on_of_nodup_map (h.tags.nodup_iff.mpr List.nodup_range) hc hd hsqe

/-- A cancel succeeds or finds nothing. -/
theorem Verdict.of_target {e : Entry} {apply : PendingApply} {t : UInt64}
    (h : Verdict tr i e apply) (ht : e.target = some t) :
    apply = .immediateError 0 ∨ apply = .immediateError (-enoent) := by
  cases h with
  | operation op hop => exact absurd (ht.symm.trans (Entry.target_eq_none hop)) (by simp)
  | cancelled op hop => exact absurd (ht.symm.trans (Entry.target_eq_none hop)) (by simp)
  | rejected hflags => exact absurd (ht.symm.trans (Entry.rejected_no_target hflags).1) (by simp)
  | found => exact Or.inl rfl
  | missed => exact Or.inr rfl

/-- A successful cancel: its completion says so, and it took its target. -/
theorem Decided.took (h : Decided w.ring.pool tr) {f : Entry} {t : UInt64}
    (hf : entryOf tr j = some f) (ht : f.target = some t) (hc : Completes w tr j 0) :
    ∃ d ∈ yieldsIn tr ++ w.ring.pool, d.sqe = j ∧ d.apply = .immediateError 0 ∧ Took tr j t := by
  obtain ⟨d, hd, rfl, happ⟩ := h.of_completes hc
  have hzero : d.apply = .immediateError 0 := by
    rcases (h.verdict d hd f hf).of_target ht with hz | hz
    · exact hz
    · rcases happ with happ | happ
      · exact happ
      · rw [hz] at happ
        cases happ.1
  exact ⟨d, hd, rfl, hzero, h.found d hd f t hf ht hzero⟩

/-- An operation completes with `ECANCELED` exactly if it has been taken out. -/
theorem Decided.cancelled_iff (h : Decided w.ring.pool tr) (htr : Tracked w.ring.pool tr)
    (hi : IsOperation tr i) : Completes w tr i (-ecanceled) ↔ .removed i ∈ tr := by
  obtain ⟨e, op, he, hop⟩ := hi
  have hnot := Entry.operation_not_decided hop
  constructor
  · intro hc
    obtain ⟨c, hin, rfl, happ⟩ := h.of_completes hc
    have happ : c.apply = .immediateError (-ecanceled) := happ.resolve_right fun hr => hr.2 rfl
    have hv := h.verdict c hin e he
    rw [happ] at hv
    cases hv with
    | operation _ hop' =>
      rw [hop] at hop'
      cases hop'
      cases hnot
    | cancelled _ _ htaken => exact htaken
  · intro htaken
    obtain ⟨c, hc, rfl⟩ := htr.completion (entryOf_lt he)
    refine h.completes hc ?_
    generalize happ : c.apply = apply
    have hv := h.verdict c hc e he
    rw [happ] at hv
    cases hv with
    | operation _ _ _ hno => exact absurd htaken hno
    | cancelled => rfl
    | rejected hflags => exact absurd (hop.symm.trans (Entry.rejected_no_target hflags).2) (by simp)
    | found t ht => exact absurd (ht.symm.trans (Entry.target_eq_none hop)) (by simp)
    | missed t ht => exact absurd (ht.symm.trans (Entry.target_eq_none hop)) (by simp)

/-- A cancel that succeeded took the entry it is a cancel of, and that is an operation. -/
theorem Decided.cancels (h : Decided w.ring.pool tr) (htr : Tracked w.ring.pool tr)
    (hdist : Distinct tr) (hji : Cancels tr j i) (hc : Completes w tr j 0) :
    IsOperation tr i ∧ .removed i ∈ tr ∧ ¬ YieldedBefore tr i j := by
  obtain ⟨f, e, hf, he, ht⟩ := hji
  obtain ⟨-, -, -, -, k, e', he', hud, ⟨op, hop⟩, htaken, hfresh⟩ := h.took hf ht hc
  obtain rfl := hdist.eq he' he hud
  refine ⟨⟨e', op, he', hop⟩, htaken, ?_⟩
  rintro ⟨a', b', g', due', htr', hlen', c, hc, hsqe⟩
  obtain ⟨a, b, g, due, rfl, hlen, hno⟩ := hfresh
  obtain rfl := accepted_unique htr' (hlen.trans hlen'.symm)
  have hin : c ∈ yieldsIn (a ++ .accepted g due :: b) ++ w.ring.pool := by
    rw [yieldsIn_append]
    exact List.mem_append_left _ (List.mem_append_left _ hc)
  obtain ⟨e'', he'', hcud⟩ := htr.entry hin
  rw [hsqe, he] at he''
  cases he''
  exact hno c hc hcud

/-- Two events that show one thing, in a list that shows it once, are one event. -/
theorem eq_of_nodup_filterMap {α β : Type} {f : α → Option β} {x y : α} {b : β} :
    ∀ {l : List α}, (l.filterMap f).Nodup → x ∈ l → y ∈ l → f x = some b → f y = some b →
      x = y := by
  intro l
  induction l with
  | nil => exact fun _ hx => nomatch hx
  | cons z l ih =>
    intro hl hx hy hfx hfy
    have hin : ∀ {v}, v ∈ l → f v = some b → b ∈ l.filterMap f := fun hv hfv =>
      List.mem_filterMap.mpr ⟨_, hv, hfv⟩
    have htail : (l.filterMap f).Nodup := hl.sublist ((List.sublist_cons_self z l).filterMap f)
    rcases List.mem_cons.mp hx with rfl | hx'
    · rcases List.mem_cons.mp hy with rfl | hy'
      · rfl
      · rw [List.filterMap_cons_some hfx] at hl
        exact absurd (hin hy' hfy) (List.nodup_cons.mp hl).1
    · rcases List.mem_cons.mp hy with rfl | hy'
      · rw [List.filterMap_cons_some hfy] at hl
        exact absurd (hin hx' hfx) (List.nodup_cons.mp hl).1
      · exact ih htail hx' hy' hfx hfy

/-- A completion is yielded once, with one result. -/
theorem Tracked.yielded_unique {pool : List ScheduledCqe} (h : Tracked pool tr) {c : ScheduledCqe}
    {r r' : Int} {t t' : Duration} (hr : .yielded c r t ∈ tr) (hr' : .yielded c r' t' ∈ tr) :
    r = r' := by
  have hnodup := h.tags.nodup_iff.mpr List.nodup_range
  rw [List.map_append] at hnodup
  have := eq_of_nodup_filterMap (List.Nodup.of_map _ (List.nodup_append.mp hnodup).1) hr hr'
    (b := c) rfl rfl
  cases this
  rfl

end Reading

/-- Where every cancel has met its condition, the entries are decided once. -/
theorem Decided.decidedOnce {w : World} {tr : List Event} (h : Decided w.ring.pool tr)
    (htr : Tracked w.ring.pool tr) (hdist : Distinct tr) : DecidedOnce w tr := by
  constructor
  · rintro i j k - ⟨f, e, hf, he, ht⟩ ⟨f', e', hf', he', ht'⟩ hj hk
    obtain ⟨d, hd, rfl, hz, -⟩ := h.took hf ht hj
    obtain ⟨d', hd', rfl, hz', -⟩ := h.took hf' ht' hk
    rw [he] at he'
    cases he'
    exact h.single d hd d' hd' f f' hf hf' (ht.trans ht'.symm) hz hz'
  · intro i hi
    rw [h.cancelled_iff htr hi]
    constructor
    · rintro ⟨j, hji, hc⟩
      exact (h.cancels htr hdist hji hc).2.1
    · intro htaken
      obtain ⟨e, op, he, hop⟩ := hi
      obtain ⟨d, hd, f, hf, ht, hz⟩ := h.taken i e htaken he
      exact ⟨d.sqe, ⟨f, e, hf, he, ht⟩, h.completes hd hz⟩
  · intro j f t hf ht hno
    obtain ⟨d, hd, rfl⟩ := htr.completion (entryOf_lt hf)
    rcases (h.verdict d hd f hf).of_target ht with hz | hz
    · exact absurd (h.completes hd hz) hno
    · exact h.completes hd hz
  · exact fun i j hji hi hc => hi (h.cancels htr hdist hji hc).1
  · exact fun i j hji hlate hc => (h.cancels htr hdist hji hc).2.2 hlate
  · intro i e he hflags
    obtain ⟨c, hc, rfl⟩ := htr.completion (entryOf_lt he)
    refine h.completes hc ?_
    generalize happ : c.apply = apply
    have hv := h.verdict c hc e he
    rw [happ] at hv
    obtain ⟨hnt, hno⟩ := Entry.rejected_no_target hflags
    cases hv with
    | operation op hop => exact absurd (hop.symm.trans hno) (by simp)
    | cancelled op hop => exact absurd (hop.symm.trans hno) (by simp)
    | rejected => rfl
    | found t ht => exact absurd (ht.symm.trans hnt) (by simp)
    | missed t ht => exact absurd (ht.symm.trans hnt) (by simp)
  · intro c r t e op hc he hop hno
    have hin : c ∈ yieldsIn tr ++ w.ring.pool :=
      List.mem_append_left _ (List.mem_filterMap.mpr ⟨_, hc, rfl⟩)
    generalize happ : c.apply = apply
    have hv := h.verdict c hin e he
    rw [happ] at hv
    cases hv with
    | operation op' hop' => exact Option.some.inj (hop'.symm.trans hop)
    | cancelled _ _ htaken =>
      obtain ⟨d, hd, f, hf, ht, hz⟩ := h.taken c.sqe e htaken he
      exact absurd ⟨d.sqe, ⟨f, e, hf, he, ht⟩, h.completes hd hz⟩ hno
    | rejected hflags => exact absurd (hop.symm.trans (Entry.rejected_no_target hflags).2) (by simp)
    | found t ht => exact absurd (ht.symm.trans (Entry.target_eq_none hop)) (by simp)
    | missed t ht => exact absurd (ht.symm.trans (Entry.target_eq_none hop)) (by simp)
  · intro i r r' hc hc'
    obtain ⟨c, hin, hsqe, happ⟩ := h.of_completes hc
    obtain ⟨c', hin', hsqe', happ'⟩ := h.of_completes hc'
    obtain rfl := htr.eq hin hin' (hsqe.trans hsqe'.symm)
    cases hdec : c.apply.isDecided with
    | true =>
      have hr := happ.resolve_right fun hrun => absurd (hdec.symm.trans hrun.1) (by decide)
      have hr' := happ'.resolve_right fun hrun => absurd (hdec.symm.trans hrun.1) (by decide)
      exact PendingApply.immediateError.inj (hr.symm.trans hr')
    | false =>
      -- An operation reports its result only where it is yielded.
      have hyielded : ∀ {r}, Completes w tr i r → ∃ t, .yielded c r t ∈ tr := by
        rintro r (⟨d, t, hd, hdi⟩ | ⟨d, hd, hdi, hdr⟩)
        · have hdin : d ∈ yieldsIn tr ++ w.ring.pool :=
            List.mem_append_left _ (List.mem_filterMap.mpr ⟨_, hd, rfl⟩)
          obtain rfl := htr.eq hin hdin (hsqe.trans hdi.symm)
          exact ⟨t, hd⟩
        · obtain rfl := htr.eq hin (List.mem_append_right _ hd) (hsqe.trans hdi.symm)
          rw [hdr] at hdec
          cases hdec
      obtain ⟨t, ht⟩ := hyielded hc
      obtain ⟨t', ht'⟩ := hyielded hc'
      exact htr.yielded_unique ht ht'

/-- A result that is reported goes on being reported. -/
theorem Decided.completes_stays {w w' : World} {tr evs : List Event}
    (h' : Decided w'.ring.pool (tr ++ evs))
    (hstay : Stays (yieldsIn tr ++ w.ring.pool) (yieldsIn (tr ++ evs) ++ w'.ring.pool)) {i : Nat}
    {r : Int} (hc : Completes w tr i r) : Completes w' (tr ++ evs) i r := by
  rcases hc with ⟨c, t, hc, hsqe⟩ | ⟨c, hc, rfl, happ⟩
  · exact Or.inl ⟨c, t, List.mem_append_left _ hc, hsqe⟩
  · exact h'.completes (hstay c (List.mem_append_right _ hc) (by rw [happ]; rfl)) happ

/-- **A cancellation is decided once.**  In every run of a ring whose entries have distinct tags
and whose cancels find nothing decided when their turn comes, the entries are decided once; and a
result that is reported or posted stays what it is in whatever such a run does next. -/
theorem cancellation_decided_once (depth : Nat) (fs : FsState) (mem : Memory) (now : Duration)
    (ops : List RingOp) {w : World} {tr : List Event}
    (h : (World.new depth fs mem now).run ops = some (w, tr)) (hdist : Distinct tr)
    (hok : (World.new depth fs mem now).runOk ops = true) :
    DecidedOnce w tr
      ∧ ∀ ops' w' tr', w.run ops' = some (w', tr') → Distinct (tr ++ tr') → w.runOk ops' = true →
          ∀ i r, Completes w tr i r → Completes w' (tr ++ tr') i r := by
  have hstart := Inv.new depth fs mem now
  have hinv : Inv w tr := hstart.run h
  have hdec : Decided w.ring.pool tr := (run_decided hstart .nil h hdist hok).1
  refine ⟨hdec.decidedOnce hinv.accounted.tracked hdist, ?_⟩
  intro ops' w' tr' hrun hdist' hok' i r hc
  obtain ⟨hdec', hstay⟩ := run_decided hinv hdec hrun hdist' hok'
  exact hdec'.completes_stays hstay hc

/-- Two fsyncs, a cancel of the first and a cancel of nothing; then two completions are drained. -/
def cancelOne : List RingOp :=
  let draws : Draws := ⟨⟨false, none, none⟩, ⟨false, false⟩, false⟩
  [.push ⟨.fsync simFdBase, 1, ⟨0⟩⟩, .push ⟨.fsync simFdBase, 2, ⟨0⟩⟩,
    .push ⟨.asyncCancel 1, 3, ⟨0⟩⟩, .push ⟨.asyncCancel 9, 4, ⟨0⟩⟩, .submit fun _ => ⟨false, 5⟩,
    .advance 5, .sync, .next (fun _ => Equiv.refl _) draws, .next (fun _ => Equiv.refl _) draws]

theorem cancellation_decided_once_cancelOne : ∃ w tr,
    (World.new 4 logFile.1 (fun _ => 0) 0).run cancelOne = some (w, tr)
      ∧ (yieldsIn tr).length = 2 ∧ .removed 0 ∈ tr ∧ DecidedOnce w tr := by
  have hval : ((World.new 4 logFile.1 (fun _ => 0) 0).run cancelOne).map (fun r =>
      ((yieldsIn r.2).length, decide (Event.removed 0 ∈ r.2),
        decide ((acceptedIn r.2).map (·.1.userData)).Nodup)) = some (2, true, true) := by
    decide +kernel
  obtain ⟨⟨w, tr⟩, hrun, heq⟩ := Option.map_eq_some_iff.mp hval
  simp only [Prod.mk.injEq, decide_eq_true_eq] at heq
  exact ⟨w, tr, hrun, heq.1, heq.2.1, (cancellation_decided_once 4 _ _ 0 cancelOne hrun heq.2.2
    (by decide +kernel)).1⟩

/-- An fsync and two cancels of it. -/
def cancelTwice : List RingOp :=
  [.push ⟨.fsync simFdBase, 1, ⟨0⟩⟩, .push ⟨.asyncCancel 1, 2, ⟨0⟩⟩, .push ⟨.asyncCancel 1, 3, ⟨0⟩⟩,
    .submit fun _ => ⟨false, 5⟩]

/-- **Both cancels of one operation succeed**: the second finds the `ECANCELED` of the first. -/
theorem second_cancel_succeeds : ∃ w tr,
    (World.new 4 logFile.1 (fun _ => 0) 0).run cancelTwice = some (w, tr) ∧ Distinct tr
      ∧ IsOperation tr 0 ∧ Cancels tr 1 0 ∧ Cancels tr 2 0 ∧ Completes w tr 1 0 ∧ Completes w tr 2 0
      ∧ ¬ DecidedOnce w tr := by
  let tr : List Event := [.accepted ⟨.fsync simFdBase, 1, ⟨0⟩⟩ 5, .removed 0,
    .accepted ⟨.asyncCancel 1, 2, ⟨0⟩⟩ 0, .removed 0, .accepted ⟨.asyncCancel 1, 3, ⟨0⟩⟩ 0]
  have hval : ((World.new 4 logFile.1 (fun _ => 0) 0).run cancelTwice).map (fun r =>
      (r.1.ring.inflight, r.2)) = some ([⟨0, 2, .immediateError 0, 1⟩,
        ⟨0, 1, .immediateError (-ecanceled), 0⟩, ⟨0, 3, .immediateError 0, 2⟩], tr) := by
    decide +kernel
  obtain ⟨⟨w, tr'⟩, hrun, heq⟩ := Option.map_eq_some_iff.mp hval
  obtain ⟨hpool, rfl⟩ := Prod.mk.inj heq
  have hop : IsOperation tr 0 := ⟨_, _, rfl, rfl⟩
  have hone : Cancels tr 1 0 := ⟨_, _, rfl, rfl, rfl⟩
  have htwo : Cancels tr 2 0 := ⟨_, _, rfl, rfl, rfl⟩
  have hc1 : Completes w tr 1 0 := Or.inr ⟨⟨0, 2, .immediateError 0, 1⟩,
    List.mem_append_right _ (by rw [hpool]; simp), rfl, rfl⟩
  have hc2 : Completes w tr 2 0 := Or.inr ⟨⟨0, 3, .immediateError 0, 2⟩,
    List.mem_append_right _ (by rw [hpool]; simp), rfl, rfl⟩
  exact ⟨w, tr, hrun, by unfold Distinct; decide, hop, hone, htwo, hc1, hc2, fun h =>
    absurd (h.one 0 1 2 hop hone htwo hc1 hc2) (by decide)⟩

end Turmoil.Uring
