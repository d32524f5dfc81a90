/-
# Which barrier a value wakes, and who waits

Every value goes to at most one barrier: of those that are registered and whose condition holds of it,
the one that was registered first.  The test receives the values of a barrier in the order in which they
were triggered, each with the type the barrier is about.  A source waits exactly as long as its handle is
in the channel of a barrier, or held by the test: none is forgotten, and none goes on early.
-/
import Turmoil.Barriers.Repo
import Turmoil.Net.Packet

namespace Turmoil.Barriers

variable {τ : Type} {V : τ → Type}

/-! ## 1. What a trace says -/

/-- Is a value sent to a barrier with this reaction, by `trigger` or by `trigger_noop`? -/
def Reaction.sends (noop : Bool) : Reaction → Bool
  | .noop => true
  | .suspend => !noop
  | .panic => false

namespace Event

/-- The barriers that are registered and have not been dropped. -/
def lives (live : List (BarrierState V)) : Event V → List (BarrierState V)
  | .registered b => live ++ [b]
  | .dropped id => live.filter fun b => b.id != id
  | _ => live

/-- What an event sends to barrier `id`: a value that none registered before it is about. -/
def notifies (id : Nat) (live : List (BarrierState V)) : Event V → List (Any V)
  | .triggered noop x =>
    ((live.find? fun b => b.condition x).filter fun b => b.id = id && b.reaction.sends noop).toList.map
      fun _ => x
  | _ => []

end Event

def liveAfter (live : List (BarrierState V)) (tr : List (Event V)) : List (BarrierState V) :=
  tr.foldl Event.lives live

/-- The values that are sent to a barrier, in order. -/
def notified (id : Nat) : List (BarrierState V) → List (Event V) → List (Any V)
  | _, [] => []
  | live, e :: tr => e.notifies id live ++ notified id (e.lives live) tr

def receivedOn (id : Nat) (tr : List (Event V)) : List (Any V) :=
  tr.filterMap fun
    | .received id' x => if id' = id then some x else none
    | _ => none

/-- The calls that were dropped where they waited. -/
def cancelledOf (tr : List (Event V)) : List Nat :=
  tr.filterMap fun
    | .cancelled call => some call
    | _ => none

section
variable (id : Nat) (tr tr' : List (Event V))

theorem receivedOn_append :
    receivedOn id (tr ++ tr') = receivedOn id tr ++ receivedOn id tr' := List.filterMap_append

theorem cancelledOf_append : cancelledOf (tr ++ tr') = cancelledOf tr ++ cancelledOf tr' :=
  List.filterMap_append

theorem liveAfter_append (live : List (BarrierState V)) :
    liveAfter live (tr ++ tr') = liveAfter (liveAfter live tr) tr' := List.foldl_append

variable {tr tr'}

theorem notified_append : ∀ (live : List (BarrierState V)) (tr : List (Event V)),
    notified id live (tr ++ tr') = notified id live tr ++ notified id (liveAfter live tr) tr'
  | _, [] => rfl
  | live, e :: tr => by
    rw [List.cons_append, notified, notified_append _ tr, notified, List.append_assoc]
    rfl

theorem notified_snoc (live : List (BarrierState V)) (tr : List (Event V)) (e : Event V) :
    notified id live (tr ++ [e]) = notified id live tr ++ e.notifies id (liveAfter live tr) := by
  rw [notified_append, notified, notified, List.append_nil]

end

namespace State

variable {s s' : State V} {tr : List (Event V)}

/-! ## 2. The values -/

structure Inv (s : State V) (tr : List (Event V)) : Prop where
  live : s.repo = liveAfter [] tr
  ids : s.barriers.map Barrier.id = s.repo.map BarrierState.id
  nodup : (s.repo.map BarrierState.id).Nodup
  below : ∀ st ∈ s.repo, st.id < s.ids
  typed : ∀ st ∈ s.repo, ∀ b ∈ s.barriers, st.id = b.id →
    ∀ x, st.condition x = true → x.type = b.type
  queued : ∀ b ∈ s.barriers, ∀ m ∈ b.fromSrc, m.1.type = b.type
  fifo : ∀ b ∈ s.barriers, notified b.id [] tr = receivedOn b.id tr ++ b.fromSrc.map Prod.fst
  inOrder : ∀ i, receivedOn i tr <+: notified i [] tr
  unused : ∀ i, s.ids ≤ i → notified i [] tr = []

theorem Inv.new : Inv (new : State V) [] where
  live := rfl
  ids := rfl
  nodup := List.nodup_nil
  below _ h := absurd h List.not_mem_nil
  typed _ h := absurd h List.not_mem_nil
  queued _ h := absurd h List.not_mem_nil
  fifo _ h := absurd h List.not_mem_nil
  inOrder _ := List.nil_prefix
  unused _ _ := rfl

/-- The two halves of a barrier. -/
theorem Inv.mem_ids (hi : Inv s tr) {i : Nat} :
    (∃ b ∈ s.barriers, b.id = i) ↔ ∃ st ∈ s.repo, st.id = i := by
  rw [← List.mem_map, ← List.mem_map, hi.ids]

/-- An event that no barrier notices. -/
theorem Inv.quiet (hi : Inv s tr) {e : Event V} (hr : s'.repo = s.repo)
    (hb : s'.barriers = s.barriers) (hids : s'.ids = s.ids) (hlive : e.lives s.repo = s.repo)
    (hnone : ∀ i, e.notifies i s.repo = []) (hrecv : ∀ i, receivedOn i [e] = []) :
    Inv s' (tr ++ [e]) := by
  have hn : ∀ i, notified i [] (tr ++ [e]) = notified i [] tr := fun i => by
    rw [notified_snoc, ← hi.live, hnone, List.append_nil]
  have hrv : ∀ i, receivedOn i (tr ++ [e]) = receivedOn i tr := fun i => by
    rw [receivedOn_append, hrecv, List.append_nil]
  constructor
  · rw [hr, liveAfter_append, ← hi.live]
    exact hlive.symm
  · rw [hr, hb]
    exact hi.ids
  · rw [hr]
    exact hi.nodup
  · rw [hr, hids]
    exact hi.below
  · rw [hr, hb]
    exact hi.typed
  · rw [hb]
    exact hi.queued
  · rw [hb]
    intro b hmem
    rw [hn, hrv]
    exact hi.fifo b hmem
  · intro i
    rw [hn, hrv]
    exact hi.inOrder i
  · intro i hle
    rw [hn]
    exact hi.unused i (hids ▸ hle)

theorem Inv.built [DecidableEq τ] (hi : Inv s tr) (reaction : Reaction) (T : τ) (condition : V T → Bool) :
    Inv (s.build reaction T condition).1 (tr ++ (s.build reaction T condition).2) := by
  have hn : ∀ i, notified i [] (tr ++ (s.build reaction T condition).2) = notified i [] tr :=
    fun i => by
      rw [build, notified_snoc]
      exact List.append_nil _
  have hrv : ∀ i, receivedOn i (tr ++ (s.build reaction T condition).2) = receivedOn i tr :=
    fun i => by
      rw [build, receivedOn_append]
      exact List.append_nil _
  have hfresh : ∀ st ∈ s.repo, st.id ≠ s.ids := fun st hst => Nat.ne_of_lt (hi.below st hst)
  have hfresh' : ∀ b ∈ s.barriers, b.id ≠ s.ids := fun b hb e => by
    obtain ⟨st, hst, he⟩ := hi.mem_ids.mp ⟨b, hb, e⟩
    exact hfresh st hst he
  constructor
  · show s.repo ++ _ = _
    rw [liveAfter_append, ← hi.live]
    rfl
  · show (s.barriers ++ _).map _ = (s.repo ++ _).map _
    rw [List.map_append, List.map_append, hi.ids]
    rfl
  · show ((s.repo ++ _).map _).Nodup
    rw [List.map_append, List.nodup_append]
    refine ⟨hi.nodup, List.nodup_singleton _, fun i hmem j hj => ?_⟩
    obtain ⟨st, hst, rfl⟩ := List.mem_map.mp hmem
    cases List.mem_singleton.mp hj
    exact hfresh st hst
  · intro st hst
    rcases List.mem_append.mp hst with hst | hst
    · exact Nat.lt_succ_of_lt (hi.below st hst)
    · cases List.mem_singleton.mp hst
      exact Nat.lt_succ_self _
  · intro st hst b hb he x hx
    rcases List.mem_append.mp hst with hst | hst <;> rcases List.mem_append.mp hb with hb | hb
    · exact hi.typed st hst b hb he x hx
    · cases List.mem_singleton.mp hb
      exact absurd he (hfresh st hst)
    · cases List.mem_singleton.mp hst
      exact absurd he.symm (hfresh' b hb)
    · cases List.mem_singleton.mp hst
      cases List.mem_singleton.mp hb
      by_contra hne
      have hnone : x.downcast T = none := dif_neg hne
      change ((x.downcast T).map condition).getD false = true at hx
      rw [hnone] at hx
      cases hx
  · intro b hb
    rcases List.mem_append.mp hb with hb | hb
    · exact hi.queued b hb
    · cases List.mem_singleton.mp hb
      exact fun m hm => absurd hm List.not_mem_nil
  · intro b hb
    rw [hn, hrv]
    rcases List.mem_append.mp hb with hb | hb
    · exact hi.fifo b hb
    · cases List.mem_singleton.mp hb
      have hnone := hi.unused s.ids (Nat.le_refl _)
      have hprefix := hi.inOrder s.ids
      rw [hnone] at hprefix
      rw [hnone, List.prefix_nil.mp hprefix]
      rfl
  · intro i
    rw [hn, hrv]
    exact hi.inOrder i
  · intro i hle
    rw [hn]
    exact hi.unused i (Nat.le_of_succ_le hle)

theorem Inv.droppedBarrier (hi : Inv s tr) (id : Nat) :
    Inv (s.dropBarrier id).1 (tr ++ (s.dropBarrier id).2) := by
  have hn : ∀ i, notified i [] (tr ++ (s.dropBarrier id).2) = notified i [] tr := fun i => by
    rw [dropBarrier, notified_snoc]
    exact List.append_nil _
  have hrv : ∀ i, receivedOn i (tr ++ (s.dropBarrier id).2) = receivedOn i tr := fun i => by
    rw [dropBarrier, receivedOn_append]
    exact List.append_nil _
  have hrepo : ∀ st ∈ (s.dropBarrier id).1.repo, st ∈ s.repo := fun st hst =>
    (List.mem_filter.mp hst).1
  have hbarriers : ∀ b ∈ (s.dropBarrier id).1.barriers, b ∈ s.barriers := fun b hb =>
    (List.mem_filter.mp hb).1
  constructor
  · show s.repo.filter _ = _
    rw [liveAfter_append, ← hi.live]
    rfl
  · show (s.barriers.filter _).map Barrier.id = (s.repo.filter _).map BarrierState.id
    have h := congrArg (List.filter fun i => i != id) hi.ids
    rw [List.filter_map, List.filter_map] at h
    exact h
  · exact hi.nodup.sublist (List.filter_sublist.map _)
  · exact fun st hst => hi.below st (hrepo st hst)
  · exact fun st hst b hb => hi.typed st (hrepo st hst) b (hbarriers b hb)
  · exact fun b hb => hi.queued b (hbarriers b hb)
  · intro b hb
    rw [hn, hrv]
    exact hi.fifo b (hbarriers b hb)
  · intro i
    rw [hn, hrv]
    exact hi.inOrder i
  · intro i hle
    rw [hn]
    exact hi.unused i hle

/-- Which barrier takes a value. -/
theorem barrier_spec {x : Any V} {st : BarrierState V} (h : s.barrier x = some st) :
    st ∈ s.repo ∧ st.condition x = true :=
  ⟨List.mem_of_find?_eq_some h, by simpa using List.find?_some h⟩

theorem notifies_eq {noop : Bool} {x : Any V} {st : BarrierState V} (h : s.barrier x = some st)
    (hs : st.reaction.sends noop = true) (i : Nat) :
    (Event.triggered noop x).notifies i s.repo = if st.id = i then [x] else [] := by
  rw [Event.notifies, show s.repo.find? _ = some st from h]
  by_cases he : st.id = i
  · rw [Option.filter_some_pos (by simp [he, hs]), if_pos he]
    rfl
  · rw [Option.filter_some_neg (by simp [he]), if_neg he]
    rfl

theorem notifies_none {noop : Bool} {x : Any V}
    (h : ∀ st, s.barrier x = some st → st.reaction.sends noop = false) (i : Nat) :
    (Event.triggered noop x).notifies i s.repo = [] := by
  rw [Event.notifies]
  cases hb : s.repo.find? fun b => b.condition x with
  | none => rfl
  | some st =>
    rw [Option.filter_some_neg (by simp [h st hb])]
    rfl

/-- A value is sent to the first barrier that is about it. -/
theorem Inv.sent (hi : Inv s tr) {noop : Bool} {x : Any V} {st : BarrierState V}
    (hst : s.barrier x = some st) (hs : st.reaction.sends noop = true) (handle : Option Nat)
    (hr : s'.repo = s.repo) (hb : s'.barriers = (s.send st.id (x, handle)).barriers)
    (hids : s'.ids = s.ids) : Inv s' (tr ++ [.triggered noop x]) := by
  obtain ⟨hmem, hcond⟩ := barrier_spec hst
  have hn : ∀ i, notified i [] (tr ++ [.triggered noop x])
      = notified i [] tr ++ if st.id = i then [x] else [] := fun i => by
    rw [notified_snoc, ← hi.live, notifies_eq hst hs]
  have hrv : ∀ i, receivedOn i (tr ++ [.triggered noop x]) = receivedOn i tr := fun i => by
    rw [receivedOn_append]
    exact List.append_nil _
  have hbarriers : ∀ b' ∈ s'.barriers, ∃ b ∈ s.barriers,
      b' = if b.id = st.id then { b with fromSrc := b.fromSrc ++ [(x, handle)] } else b := by
    intro b' hb'
    rw [hb] at hb'
    obtain ⟨b, hmem, rfl⟩ := List.mem_map.mp hb'
    exact ⟨b, hmem, rfl⟩
  constructor
  · rw [hr, liveAfter_append, ← hi.live]
    rfl
  · rw [hr, hb, ← hi.ids]
    show (s.barriers.map _).map _ = _
    rw [List.map_map]
    refine List.map_congr_left fun b _ => ?_
    show (if b.id = st.id then _ else b).id = b.id
    split <;> rfl
  · rw [hr]
    exact hi.nodup
  · rw [hr, hids]
    exact hi.below
  · rw [hr]
    intro st' hst' b' hb' he
    obtain ⟨b, hbmem, rfl⟩ := hbarriers b' hb'
    split at he
    · rw [if_pos (by assumption)]
      exact hi.typed st' hst' b hbmem he
    · rw [if_neg (by assumption)]
      exact hi.typed st' hst' b hbmem he
  · intro b' hb'
    obtain ⟨b, hbmem, rfl⟩ := hbarriers b' hb'
    split
    · rename_i he
      intro m hm
      rcases List.mem_append.mp hm with hm | hm
      · exact hi.queued b hbmem m hm
      · cases List.mem_singleton.mp hm
        exact hi.typed st hmem b hbmem he.symm x hcond
    · exact hi.queued b hbmem
  · intro b' hb'
    obtain ⟨b, hbmem, rfl⟩ := hbarriers b' hb'
    split
    · rename_i he
      show notified b.id [] _ = receivedOn b.id _ ++ (b.fromSrc ++ [(x, handle)]).map Prod.fst
      rw [hn, hrv, if_pos he.symm, hi.fifo b hbmem, List.map_append, List.append_assoc]
      rfl
    · rename_i he
      rw [hn, hrv, if_neg fun e => he e.symm, List.append_nil]
      exact hi.fifo b hbmem
  · intro i
    rw [hn, hrv]
    exact (hi.inOrder i).trans (List.prefix_append _ _)
  · intro i hle
    rw [hids] at hle
    have := hi.below st hmem
    rw [hn, hi.unused i hle, if_neg (by omega)]
    rfl

/-- The test receives what is first in the channel; it has the type of the barrier. -/
theorem Inv.waited [DecidableEq τ] (hi : Inv s tr) (id : Nat) :
    ∃ s' ev, s.wait id = .ok (s', ev) ∧ Inv s' (tr ++ ev) := by
  unfold wait
  cases hfind : s.barriers.find? fun b => b.id == id with
  | none => exact ⟨s, [], rfl, by rw [List.append_nil]; exact hi⟩
  | some b =>
    have hb : b ∈ s.barriers := List.mem_of_find?_eq_some hfind
    have hid : b.id = id := by simpa using List.find?_some hfind
    dsimp only
    split
    · exact ⟨s, [], rfl, by rw [List.append_nil]; exact hi⟩
    · rename_i x handle queue hqueue
      have htype : x.type = b.type := hi.queued b hb _ (hqueue ▸ List.mem_cons_self)
      have hdown : x.downcast b.type = some (htype ▸ x.value) := dif_pos htype
      rw [hdown]
      refine ⟨_, _, rfl, ?_⟩
      have hn : ∀ i, notified i [] (tr ++ [.received id x]) = notified i [] tr := fun i => by
        rw [notified_snoc]
        exact List.append_nil _
      have hrv : ∀ i, receivedOn i (tr ++ [.received id x])
          = receivedOn i tr ++ if id = i then [x] else [] := fun i => by
        rw [receivedOn_append]
        by_cases he : id = i
        · rw [if_pos he]
          exact congrArg _ (List.filterMap_cons_some (if_pos he))
        · rw [if_neg he]
          exact congrArg _ (List.filterMap_cons_none (if_neg he))
      -- the only barrier with this id
      have hone : ∀ r ∈ s.barriers, r.id = id → r = b := fun r hr he => by
        have hnodup : (s.barriers.map Barrier.id).Nodup := hi.ids ▸ hi.nodup
        exact List.inj_on_of_nodup_map hnodup hr hb (he.trans hid.symm)
      have hfifo : notified id [] tr
          = (receivedOn id tr ++ [x]) ++ queue.map Prod.fst := by
        have := hi.fifo b hb
        rw [hid, hqueue] at this
        rw [this, List.append_assoc]
        rfl
      have hbarriers : ∀ b' ∈ s.barriers.map fun r =>
          if r.id = id then { r with fromSrc := queue } else r,
          b' = { b with fromSrc := queue } ∨ (b' ∈ s.barriers ∧ b'.id ≠ id) := by
        intro b' hb'
        obtain ⟨r, hr, rfl⟩ := List.mem_map.mp hb'
        split
        · rename_i he
          rw [hone r hr he]
          exact .inl rfl
        · rename_i he
          exact .inr ⟨hr, he⟩
      constructor
      · show s.repo = _
        rw [liveAfter_append, ← hi.live]
        rfl
      · show (s.barriers.map _).map _ = _
        rw [List.map_map, ← hi.ids]
        refine List.map_congr_left fun r _ => ?_
        show (if r.id = id then _ else r).id = r.id
        split <;> rfl
      · exact hi.nodup
      · exact hi.below
      · intro st hst b' hb' he
        rcases hbarriers b' hb' with rfl | ⟨hb', -⟩
        · exact hi.typed st hst b hb he
        · exact hi.typed st hst b' hb' he
      · intro b' hb'
        rcases hbarriers b' hb' with rfl | ⟨hb', -⟩
        · exact fun m hm => hi.queued b hb m (hqueue ▸ List.mem_cons_of_mem _ hm)
        · exact hi.queued b' hb'
      · intro b' hb'
        rcases hbarriers b' hb' with rfl | ⟨hb', hne⟩
        · show notified b.id [] _ = receivedOn b.id _ ++ queue.map Prod.fst
          rw [hn, hrv, hid, if_pos rfl]
          exact hfifo
        · rw [hn, hrv, if_neg fun e => hne e.symm, List.append_nil]
          exact hi.fifo b' hb'
      · intro i
        rw [hn, hrv]
        split
        · rename_i he
          rw [← he, hfifo]
          exact List.prefix_append _ _
        · rw [List.append_nil]
          exact hi.inOrder i
      · intro i hle
        rw [hn]
        exact hi.unused i hle

/-- A call that sends to nobody. -/
theorem Inv.unsent (hi : Inv s tr) {noop : Bool} {x : Any V}
    (h : ∀ st, s.barrier x = some st → st.reaction.sends noop = false) :
    Inv s (tr ++ [.triggered noop x]) :=
  hi.quiet rfl rfl rfl rfl (notifies_none h) fun _ => rfl

theorem Inv.trigger (hi : Inv s tr) (x : Any V) :
    Inv (s.trigger x) (tr ++ [.triggered false x]) := by
  unfold State.trigger
  cases hst : s.barrier x with
  | none => exact hi.unsent fun st h => by rw [hst] at h; cases h
  | some st =>
    dsimp only
    cases hr : st.reaction with
    | noop => exact hi.sent hst (by rw [hr]; rfl) none rfl rfl rfl
    | suspend => exact hi.sent hst (by rw [hr]; rfl) (some s.calls) rfl rfl rfl
    | panic =>
      refine hi.unsent fun st' h => ?_
      rw [hst] at h
      cases h
      rw [hr]
      rfl

theorem Inv.triggerNoop (hi : Inv s tr) (x : Any V) :
    Inv (s.triggerNoop x) (tr ++ [.triggered true x]) := by
  unfold State.triggerNoop
  cases hst : s.barrier x with
  | none => exact hi.unsent fun st h => by rw [hst] at h; cases h
  | some st =>
    dsimp only
    cases hr : st.reaction with
    | noop => exact hi.sent hst (by rw [hr]; rfl) none rfl rfl rfl
    | suspend | panic =>
      refine hi.unsent fun st' h => ?_
      rw [hst] at h
      cases h
      rw [hr]
      rfl

/-- **One step** does not fail, and keeps the invariant. -/
theorem Inv.step [DecidableEq τ] (hi : Inv s tr) (op : Op V) :
    ∃ s' ev, s.step op = .ok (s', ev) ∧ Inv s' (tr ++ ev) := by
  cases op with
  | build reaction T condition => exact ⟨_, _, rfl, hi.built reaction T condition⟩
  | dropBarrier id => exact ⟨_, _, rfl, hi.droppedBarrier id⟩
  | trigger x => exact ⟨_, _, rfl, hi.trigger x⟩
  | triggerNoop x => exact ⟨_, _, rfl, hi.triggerNoop x⟩
  | wait id => exact hi.waited id
  | dropTriggered i =>
    refine ⟨_, _, rfl, ?_⟩
    rw [List.append_nil, dropTriggered]
    split
    · exact hi
    · exact ⟨hi.live, hi.ids, hi.nodup, hi.below, hi.typed, hi.queued, hi.fifo, hi.inOrder,
        hi.unused⟩
  | cancel call =>
    by_cases hc : call ∈ s.suspended
    · refine ⟨s.release [call], [.cancelled call], by rw [State.step, if_pos hc], ?_⟩
      exact hi.quiet rfl rfl rfl rfl (fun _ => rfl) fun _ => rfl
    · refine ⟨s, [], by rw [State.step, if_neg hc], ?_⟩
      rw [List.append_nil]
      exact hi

theorem Inv.run [DecidableEq τ] (ops : List (Op V)) : ∀ {s : State V} {tr : List (Event V)},
    Inv s tr → ∃ s' ev, s.run ops = .ok (s', ev) ∧ Inv s' (tr ++ ev) := by
  induction ops with
  | nil => exact fun {s tr} hi => ⟨s, [], rfl, by rw [List.append_nil]; exact hi⟩
  | cons op ops ih =>
    intro s tr hi
    obtain ⟨s₁, first, h₁, hi₁⟩ := hi.step op
    obtain ⟨s₂, rest, h₂, hi₂⟩ := ih hi₁
    refine ⟨s₂, first ++ rest, ?_, by rw [← List.append_assoc]; exact hi₂⟩
    exact Net.bind_eq_ok.mpr ⟨(s₁, first), h₁, Net.bind_eq_ok.mpr ⟨(s₂, rest), h₂, rfl⟩⟩

/-! ## 3. The handles -/

/-- The handles in the channels, and those the test holds. -/
def held (s : State V) : List Nat :=
  (s.barriers.flatMap fun b => handles b.fromSrc) ++ s.triggered.filterMap Triggered.release

/-- Who waits: the calls whose handle is somewhere, unless they have been dropped. -/
structure Waits (s : State V) (tr : List (Event V)) : Prop where
  nodup : s.held.Nodup
  below : ∀ n ∈ s.held, n < s.calls
  suspended : ∀ n, n ∈ s.suspended ↔ n ∈ s.held ∧ n ∉ cancelledOf tr
  cancelled : ∀ n ∈ cancelledOf tr, n < s.calls

theorem Waits.new : Waits (new : State V) [] where
  nodup := List.nodup_nil
  below _ h := absurd h List.not_mem_nil
  suspended _ := iff_of_false List.not_mem_nil fun h => absurd h.1 List.not_mem_nil
  cancelled _ h := absurd h List.not_mem_nil

/-- A step that takes some handles away, and releases those who wait for them. -/
theorem Waits.taken (hw : Waits s tr) {gone : List Nat} {ev : List (Event V)}
    (hp : s.held.Perm (gone ++ s'.held)) (hc : s'.calls = s.calls) (hev : cancelledOf ev = [])
    (hs : ∀ n, n ∈ s'.suspended ↔ n ∈ s.suspended ∧ n ∉ gone) : Waits s' (tr ++ ev) := by
  have hcancel : cancelledOf (tr ++ ev) = cancelledOf tr := by
    rw [cancelledOf_append, hev, List.append_nil]
  have hnodup := hp.nodup_iff.mp hw.nodup
  have hmem : ∀ n, n ∈ s'.held ↔ n ∈ s.held ∧ n ∉ gone := fun n => by
    rw [hp.mem_iff, List.mem_append]
    refine ⟨fun h => ⟨.inr h, fun hg => ?_⟩, fun h => h.1.resolve_left h.2⟩
    exact (List.nodup_append.mp hnodup).2.2 n hg n h rfl
  refine ⟨(List.nodup_append.mp hnodup).2.1, fun n hn => ?_, fun n => ?_, ?_⟩
  · rw [hc]
    exact hw.below n ((hmem n).mp hn).1
  · rw [hcancel, hs, hmem, hw.suspended]
    exact and_right_comm
  · rw [hcancel, hc]
    exact hw.cancelled

/-- One barrier among those of the test. -/
theorem Inv.split (hi : Inv s tr) {b : Barrier V} (hb : b ∈ s.barriers) :
    ∃ l₁ l₂, s.barriers = l₁ ++ b :: l₂ ∧ ∀ f : Barrier V → Barrier V,
      (s.barriers.map fun r => if r.id = b.id then f r else r) = l₁ ++ f b :: l₂ := by
  have hnodup : (s.barriers.map Barrier.id).Nodup := hi.ids ▸ hi.nodup
  obtain ⟨l₁, l₂, hl⟩ := List.append_of_mem hb
  rw [hl, List.map_append, List.map_cons, List.nodup_append, List.nodup_cons] at hnodup
  obtain ⟨-, ⟨hne₂, -⟩, hne₁⟩ := hnodup
  refine ⟨l₁, l₂, hl, fun f => ?_⟩
  have hmap : ∀ l : List (Barrier V), (∀ r ∈ l, r.id ≠ b.id) →
      (l.map fun r => if r.id = b.id then f r else r) = l := fun l hne =>
    (List.map_congr_left fun r hr => if_neg (hne r hr)).trans (List.map_id l)
  have h₁ := hmap l₁ fun r hr => hne₁ _ (List.mem_map_of_mem hr) _ List.mem_cons_self
  have h₂ := hmap l₂ fun r hr e => hne₂ (e ▸ List.mem_map_of_mem hr)
  rw [hl, List.map_append, List.map_cons, if_pos rfl, h₁, h₂]

theorem mem_release {n : Nat} {gone : List Nat} :
    n ∈ (s.release gone).suspended ↔ n ∈ s.suspended ∧ n ∉ gone := by
  rw [release, List.mem_filter, decide_eq_true_eq]

/-- A message in the channel of a barrier that is there. -/
theorem held_send (hi : Inv s tr) {b : Barrier V} (hb : b ∈ s.barriers) (x : Any V)
    (handle : Option Nat) :
    (s.send b.id (x, handle)).held.Perm (handle.toList ++ s.held) := by
  obtain ⟨l₁, l₂, hl, hmap⟩ := hi.split hb
  have hhandles : handles (b.fromSrc ++ [(x, handle)]) = handles b.fromSrc ++ handle.toList := by
    rw [handles, List.filterMap_append]
    cases handle <;> rfl
  rw [held, held, send, hmap, hl]
  simp only [List.flatMap_append, List.flatMap_cons, hhandles, List.append_assoc]
  refine (List.Perm.append_left _ (List.perm_append_comm_assoc _ _ _)).trans ?_
  exact List.perm_append_comm_assoc _ _ _

/-- A handle that was in a channel is in the hands of the test. -/
theorem held_wait [DecidableEq τ] (hi : Inv s tr) {id : Nat} {ev : List (Event V)}
    (h : s.wait id = .ok (s', ev)) : s.held.Perm s'.held ∧ s'.calls = s.calls
      ∧ s'.suspended = s.suspended ∧ cancelledOf ev = [] := by
  unfold wait at h
  split at h
  · cases h
    exact ⟨.refl _, rfl, rfl, rfl⟩
  · rename_i b hfind
    have hb : b ∈ s.barriers := List.mem_of_find?_eq_some hfind
    have hid : b.id = id := by simpa using List.find?_some hfind
    split at h
    · cases h
      exact ⟨.refl _, rfl, rfl, rfl⟩
    · rename_i x handle queue hqueue
      split at h
      · cases h
      · cases h
        obtain ⟨l₁, l₂, hl, hmap⟩ := hi.split hb
        refine ⟨?_, rfl, rfl, rfl⟩
        have hhandles : handles b.fromSrc = handle.toList ++ handles queue := by
          rw [hqueue]
          cases handle <;> rfl
        subst hid
        rw [held, held, hmap, hl, List.filterMap_append]
        have hlast : ∀ data : V b.type, [(⟨b.type, data, handle⟩ : Triggered V)].filterMap
            Triggered.release = handle.toList := fun _ => by cases handle <;> rfl
        rw [hlast]
        simp only [List.flatMap_append, List.flatMap_cons, hhandles, List.append_assoc]
        refine List.Perm.append_left _ (List.perm_append_comm.trans ?_)
        simp only [List.append_assoc]
        exact .refl _

/-- A call that waits from now on. -/
theorem Waits.suspend (hw : Waits s tr) {x : Any V}
    (hp : s'.held.Perm (s.calls :: s.held)) (hc : s'.calls = s.calls + 1)
    (hs : s'.suspended = s.suspended ++ [s.calls]) : Waits s' (tr ++ [.triggered false x]) := by
  have hcancel : cancelledOf (tr ++ [.triggered false x]) = cancelledOf tr := by
    rw [cancelledOf_append]
    exact List.append_nil _
  refine ⟨hp.nodup_iff.mpr (List.nodup_cons.mpr ⟨fun h => ?_, hw.nodup⟩), fun n hn => ?_,
    fun n => ?_, fun n hn => ?_⟩
  · exact absurd (hw.below _ h) (Nat.lt_irrefl _)
  · rw [hc]
    rcases List.mem_cons.mp (hp.mem_iff.mp hn) with rfl | hn
    · exact Nat.lt_succ_self _
    · exact Nat.lt_succ_of_lt (hw.below n hn)
  · rw [hcancel, hs, List.mem_append, hw.suspended, hp.mem_iff, List.mem_singleton,
      List.mem_cons]
    constructor
    · rintro (⟨hn, hnc⟩ | rfl)
      · exact ⟨.inr hn, hnc⟩
      · exact ⟨.inl rfl, fun h => absurd (hw.cancelled _ h) (Nat.lt_irrefl _)⟩
    · rintro ⟨rfl | hn, hnc⟩
      · exact .inr rfl
      · exact .inl ⟨hn, hnc⟩
  · rw [hc]
    exact Nat.lt_succ_of_lt (hw.cancelled n (hcancel ▸ hn))

theorem Waits.same (hw : Waits s tr) {ev : List (Event V)} (hh : s'.held.Perm s.held)
    (hc : s'.calls = s.calls) (hs : s'.suspended = s.suspended) (hev : cancelledOf ev = []) :
    Waits s' (tr ++ ev) :=
  @Waits.taken _ _ s s' tr hw [] ev hh.symm hc hev fun n => by rw [hs]; simp

theorem Waits.trigger (hw : Waits s tr) (hi : Inv s tr) (x : Any V) :
    Waits (s.trigger x) (tr ++ [.triggered false x]) := by
  unfold State.trigger
  cases hst : s.barrier x with
  | none => exact hw.same (.refl _) rfl rfl rfl
  | some st =>
    obtain ⟨b, hb, hid⟩ := hi.mem_ids.mpr ⟨st, (barrier_spec hst).1, rfl⟩
    dsimp only
    rw [← hid]
    cases st.reaction with
    | noop => exact hw.same (held_send hi hb x none) rfl rfl rfl
    | suspend =>
      have hany : (s.barriers.any fun r => r.id == b.id) = true :=
        List.any_eq_true.mpr ⟨b, hb, beq_self_eq_true b.id⟩
      refine hw.suspend (held_send hi hb x (some s.calls)) rfl ?_
      dsimp only
      rw [hany]
      rfl
    | panic => exact hw.same (.refl _) rfl rfl rfl

theorem Waits.triggerNoop (hw : Waits s tr) (hi : Inv s tr) (x : Any V) :
    Waits (s.triggerNoop x) (tr ++ [.triggered true x]) := by
  unfold State.triggerNoop
  cases hst : s.barrier x with
  | none => exact hw.same (.refl _) rfl rfl rfl
  | some st =>
    obtain ⟨b, hb, hid⟩ := hi.mem_ids.mpr ⟨st, (barrier_spec hst).1, rfl⟩
    dsimp only
    rw [← hid]
    cases st.reaction with
    | noop => exact hw.same (held_send hi hb x none) rfl rfl rfl
    | suspend | panic => exact hw.same (.refl _) rfl rfl rfl

/-- With a barrier, its channel is dropped. -/
theorem held_dropBarrier (id : Nat) : s.held.Perm
    (((s.barriers.filter fun b => b.id == id).flatMap fun b => handles b.fromSrc)
      ++ (s.dropBarrier id).1.held) := by
  rw [held, held, ← List.append_assoc]
  refine List.Perm.append_right _ ?_
  rw [← List.flatMap_append]
  refine List.Perm.flatMap_right _ ?_
  have hnot : (fun b : Barrier V => b.id != id) = fun b => !(b.id == id) := rfl
  show s.barriers.Perm (_ ++ s.barriers.filter _)
  rw [hnot]
  exact (List.filter_append_perm _ _).symm

/-- **One step** keeps the handles and those who wait together. -/
theorem Waits.step [DecidableEq τ] (hw : Waits s tr) (hi : Inv s tr) {op : Op V}
    {ev : List (Event V)} (h : s.step op = .ok (s', ev)) : Waits s' (tr ++ ev) := by
  cases op with
  | build reaction T condition =>
    cases h
    refine hw.same (.of_eq ?_) rfl rfl rfl
    show ((s.barriers ++ _).flatMap _) ++ _ = _
    rw [List.flatMap_append]
    exact congrArg (· ++ _) (List.append_nil _)
  | dropBarrier id =>
    cases h
    exact hw.taken (held_dropBarrier id) rfl rfl fun n => mem_release
  | trigger x =>
    cases h
    exact hw.trigger hi x
  | triggerNoop x =>
    cases h
    exact hw.triggerNoop hi x
  | wait id =>
    obtain ⟨hh, hc, hs, hev⟩ := held_wait hi h
    exact hw.same hh.symm hc hs hev
  | dropTriggered i =>
    cases h
    unfold State.dropTriggered
    split
    · exact hw.same (.refl _) rfl rfl rfl
    · rename_i t ht
      refine hw.taken ?_ rfl rfl fun n => mem_release
      obtain ⟨hi, rfl⟩ := List.getElem?_eq_some_iff.mp ht
      have hperm := (List.getElem_cons_eraseIdx_perm hi).symm.filterMap Triggered.release
      have hcons : (s.triggered[i] :: s.triggered.eraseIdx i).filterMap Triggered.release
          = s.triggered[i].release.toList
            ++ (s.triggered.eraseIdx i).filterMap Triggered.release := by
        rw [List.filterMap_cons]
        cases s.triggered[i].release <;> rfl
      rw [hcons] at hperm
      exact (hperm.append_left _).trans (List.perm_append_comm_assoc _ _ _)
  | cancel call =>
    rw [State.step] at h
    split at h
    · rename_i hc
      cases h
      have hheld := (hw.suspended call).mp hc
      have hcancel : cancelledOf (tr ++ [.cancelled call]) = cancelledOf tr ++ [call] :=
        cancelledOf_append _ _
      refine ⟨hw.nodup, hw.below, fun n => ?_, fun n hn => ?_⟩
      · rw [hcancel, mem_release, hw.suspended, List.mem_append, not_or]
        exact and_assoc
      · rw [hcancel] at hn
        rcases List.mem_append.mp hn with hn | hn
        · exact hw.cancelled n hn
        · cases List.mem_singleton.mp hn
          exact hw.below _ hheld.1
    · cases h
      rw [List.append_nil]
      exact hw

theorem Waits.run [DecidableEq τ] {ops : List (Op V)} : ∀ {s s' : State V} {tr ev : List (Event V)},
    Inv s tr → Waits s tr → s.run ops = .ok (s', ev) → Waits s' (tr ++ ev) := by
  induction ops with
  | nil =>
    intro s s' tr ev _ hw h
    cases h
    rw [List.append_nil]
    exact hw
  | cons op ops ih =>
    intro s s' tr ev hi hw h
    obtain ⟨s₁, first, h₁, hi₁⟩ := hi.step op
    obtain ⟨⟨s₂, first'⟩, h₂, h⟩ := Net.bind_eq_ok.mp h
    rw [h₁] at h₂
    cases h₂
    obtain ⟨⟨s₃, rest⟩, h₃, h⟩ := Net.bind_eq_ok.mp h
    cases h
    rw [← List.append_assoc]
    exact ih hi₁ (hw.step hi h₁) h₃

/-! ## 4. Every run -/

variable [DecidableEq τ]

/-- **A value goes to the first barrier that is about it.**  No run fails: what a test waits for has the
type of its barrier.  Of each barrier the test has received the first of the values that were sent to
it, and the others are in its channel, in the order in which they were triggered. -/
theorem barriers_receive_in_order (ops : List (Op V)) : ∃ s tr, new.run ops = .ok (s, tr)
    ∧ (∀ id, receivedOn id tr <+: notified id [] tr)
    ∧ ∀ b ∈ s.barriers, notified b.id [] tr = receivedOn b.id tr ++ b.fromSrc.map Prod.fst := by
  obtain ⟨s, tr, h, hi⟩ := Inv.new.run ops
  exact ⟨s, tr, h, hi.inOrder, hi.fifo⟩

/-- **A source waits as long as its handle is somewhere**: in the channel of a barrier, or with the test.
So none waits for ever once all is dropped, and none goes on while the test holds its handle. -/
theorem suspended_iff_held (ops : List (Op V)) : ∃ s tr, new.run ops = .ok (s, tr)
    ∧ ∀ n, n ∈ s.suspended ↔ n ∈ s.held ∧ n ∉ cancelledOf tr := by
  obtain ⟨s, tr, h, -⟩ := Inv.new.run ops
  exact ⟨s, tr, h, (Waits.run .new .new h).suspended⟩

end State

end Turmoil.Barriers
