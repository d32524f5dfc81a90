/-
# Replaying a log of local updates

A log is a list of operations on a map `κ → ν`.  Each operation has a FOOTPRINT, the keys it may
read or write; outside it the map is untouched, and what it writes depends on the footprint
alone (`LocalOps`).  `replay` folds a log over a map, and `Valid` says that every operation's
precondition held in the map it was issued on.

Everything rests on `foldl_partition`: pulling some operations of a log to the front does not
change the outcome, provided that each of them commutes with the operations it overtakes.  For
local operations it is enough that a pulled operation shares no key with an earlier one that
stays behind (`Apart`); `replay_partition` and `Valid.partition` are the two forms used.
-/
import Mathlib.Data.List.Induction

namespace Turmoil

/-! ## 1. Pulling operations to the front of a fold -/

section Fold

variable {β ω : Type} {step : β → ω → β}

/-- An operation that commutes with every operation of a log may be done before it. -/
theorem foldl_step_comm {o : ω} {log : List ω}
    (hc : ∀ g ∈ log, ∀ b, step (step b g) o = step (step b o) g) (b : β) :
    step (log.foldl step b) o = log.foldl step (step b o) := by
  induction log generalizing b with
  | nil => rfl
  | cons g log ih =>
    rw [List.foldl_cons, List.foldl_cons, ih (fun g' hg' => hc g' (List.mem_cons_of_mem _ hg')),
      hc g List.mem_cons_self]

/-- **Pulling operations to the front.**  If every operation picked by `p` commutes with the
earlier ones that are not picked, doing the picked ones first ends in the same state. -/
theorem foldl_partition (p : ω → Bool) {log : List ω}
    (hc : log.Pairwise fun g f => p g = false → p f = true →
      ∀ b, step (step b g) f = step (step b f) g) (b : β) :
    log.foldl step b
      = (log.filter (fun o => !p o)).foldl step ((log.filter p).foldl step b) := by
  induction log using List.reverseRecOn with
  | nil => rfl
  | append_singleton log o ih =>
    obtain ⟨hlog, -, hlast⟩ := List.pairwise_append.mp hc
    rw [List.foldl_append, ih hlog]
    cases hp : p o with
    | false => simp [List.filter_append, hp]
    | true =>
      simp only [List.filter_append, List.filter_cons, List.filter_nil, hp, Bool.not_true, if_true,
        Bool.false_eq_true, if_false, List.append_nil, List.foldl_append, List.foldl_cons,
        List.foldl_nil]
      refine foldl_step_comm (fun g hg c => ?_) _
      rw [List.mem_filter, Bool.not_eq_true'] at hg
      exact hlast g hg.1 o (List.mem_singleton.mpr rfl) hg.2 hp c

/-- A fold that skips what a filter drops is the fold of the filtered list. -/
theorem foldl_filter_congr {g g' : β → ω → β} {p : ω → Bool} {log : List ω}
    (hkeep : ∀ o ∈ log, p o = true → ∀ b, g b o = g' b o)
    (hskip : ∀ o ∈ log, p o = false → ∀ b, g b o = b) (b : β) :
    log.foldl g b = (log.filter p).foldl g' b := by
  induction log generalizing b with
  | nil => rfl
  | cons o log ih =>
    have ih := ih (fun x hx => hkeep x (List.mem_cons_of_mem _ hx))
      (fun x hx => hskip x (List.mem_cons_of_mem _ hx))
    cases hp : p o with
    | true =>
      rw [List.foldl_cons, List.filter_cons_of_pos hp, List.foldl_cons,
        hkeep o List.mem_cons_self hp, ih]
    | false =>
      rw [List.foldl_cons, List.filter_cons_of_neg (by simp [hp]),
        hskip o List.mem_cons_self hp, ih]

/-- Operations that change nothing may be dropped. -/
theorem foldl_filter_skip {p : ω → Bool} {log : List ω}
    (hskip : ∀ o ∈ log, p o = false → ∀ b, step b o = b) (b : β) :
    (log.filter p).foldl step b = log.foldl step b :=
  (foldl_filter_congr (fun _ _ _ _ => rfl) hskip b).symm

end Fold

/-! ## 2. Local operations -/

/-- Operations with a footprint. -/
structure LocalOps (κ ν ω : Type) where
  step : (κ → ν) → ω → κ → ν
  footprint : ω → List κ
  ok : (κ → ν) → ω → Prop
  frame : ∀ m o k, k ∉ footprint o → step m o k = m k
  congr : ∀ m m' o, (∀ k ∈ footprint o, m k = m' k) → ∀ k ∈ footprint o, step m o k = step m' o k
  ok_congr : ∀ m m' o, (∀ k ∈ footprint o, m k = m' k) → ok m o → ok m' o

namespace LocalOps

variable {κ ν ω : Type} (L : LocalOps κ ν ω)

/-- The map after a log. -/
def replay (m : κ → ν) (log : List ω) : κ → ν := log.foldl L.step m

/-- No operation picked by `p` shares a key with an earlier one that is not picked. -/
def Apart (p : ω → Bool) (log : List ω) : Prop :=
  log.Pairwise fun g f => p g = false → p f = true → ∀ k ∈ L.footprint f, k ∉ L.footprint g

instance [DecidableEq κ] (p : ω → Bool) (log : List ω) : Decidable (L.Apart p log) :=
  inferInstanceAs (Decidable (List.Pairwise _ log))

/-- Every operation of the log met its precondition when it was issued. -/
def Valid : (κ → ν) → List ω → Prop
  | _, [] => True
  | m, o :: log => L.ok m o ∧ Valid (L.step m o) log

@[simp] theorem replay_nil (m : κ → ν) : L.replay m [] = m := rfl

@[simp] theorem replay_cons (m : κ → ν) (o : ω) (log : List ω) :
    L.replay m (o :: log) = L.replay (L.step m o) log := rfl

theorem replay_append (m : κ → ν) (l l' : List ω) :
    L.replay m (l ++ l') = L.replay (L.replay m l) l' := List.foldl_append

theorem replay_snoc (m : κ → ν) (log : List ω) (o : ω) :
    L.replay m (log ++ [o]) = L.step (L.replay m log) o := by
  rw [replay_append]
  rfl

theorem valid_append {m : κ → ν} {l l' : List ω} :
    L.Valid m (l ++ l') ↔ L.Valid m l ∧ L.Valid (L.replay m l) l' := by
  induction l generalizing m with
  | nil => simp [Valid]
  | cons o l ih => simp [Valid, ih, and_assoc]

theorem valid_snoc {m : κ → ν} {log : List ω} {o : ω} :
    L.Valid m (log ++ [o]) ↔ L.Valid m log ∧ L.ok (L.replay m log) o := by
  rw [valid_append]
  simp [Valid]

/-- A key that no operation touches keeps its value. -/
theorem replay_frame {m : κ → ν} {log : List ω} {k : κ} (h : ∀ o ∈ log, k ∉ L.footprint o) :
    L.replay m log k = m k := by
  induction log generalizing m with
  | nil => rfl
  | cons o log ih =>
    rw [replay_cons, ih (fun o' ho' => h o' (List.mem_cons_of_mem _ ho')),
      L.frame m o k (h o List.mem_cons_self)]

/-- One step agrees wherever the maps agreed, if they agreed on the footprint. -/
theorem step_agree {m m' : κ → ν} {o : ω} (hf : ∀ k ∈ L.footprint o, m k = m' k) {k : κ}
    (hk : m k = m' k) : L.step m o k = L.step m' o k := by
  by_cases hin : k ∈ L.footprint o
  · exact L.congr m m' o hf k hin
  · rw [L.frame m o k hin, L.frame m' o k hin, hk]

/-- Operations with disjoint footprints commute. -/
theorem step_comm {m : κ → ν} {o o' : ω} (hd : ∀ k ∈ L.footprint o, k ∉ L.footprint o') :
    L.step (L.step m o) o' = L.step (L.step m o') o := by
  funext k
  have hd' : ∀ k ∈ L.footprint o', k ∉ L.footprint o := fun k h h' => hd k h' h
  by_cases h : k ∈ L.footprint o
  · rw [L.frame _ o' k (hd k h)]
    exact L.congr _ _ o (fun j hj => (L.frame m o' j (hd j hj)).symm) k h
  · rw [L.frame (L.step m o') o k h]
    by_cases h' : k ∈ L.footprint o'
    · exact L.congr _ _ o' (fun j hj => L.frame m o j (hd' j hj)) k h'
    · rw [L.frame _ o' k h', L.frame _ o k h, L.frame _ o' k h']

/-- **Pulling local operations to the front** leaves the outcome as it is. -/
theorem replay_partition (p : ω → Bool) {m : κ → ν} {log : List ω} (hd : L.Apart p log) :
    L.replay m log
      = L.replay (L.replay m (log.filter p)) (log.filter (fun o => !p o)) := by
  refine foldl_partition p (hd.imp ?_) m
  intro g f h hg hf b
  exact (L.step_comm (h hg hf)).symm

/-- Preconditions of a log survive a change of the map outside all of its footprints. -/
theorem Valid.congr {m m' : κ → ν} {log : List ω} (h : L.Valid m log)
    (hm : ∀ o ∈ log, ∀ k ∈ L.footprint o, m k = m' k) : L.Valid m' log := by
  induction log generalizing m m' with
  | nil => trivial
  | cons o log ih =>
    have ho := hm o List.mem_cons_self
    refine ⟨L.ok_congr m m' o ho h.1, ih h.2 ?_⟩
    intro o' ho' k hk
    exact L.step_agree ho (hm o' (List.mem_cons_of_mem _ ho') k hk)

/-- **Pulling valid operations to the front keeps both parts valid.** -/
theorem Valid.partition (p : ω → Bool) {m : κ → ν} {log : List ω} (h : L.Valid m log)
    (hd : L.Apart p log) :
    L.Valid m (log.filter p)
      ∧ L.Valid (L.replay m (log.filter p)) (log.filter (fun o => !p o)) := by
  induction log using List.reverseRecOn generalizing m with
  | nil => exact ⟨trivial, trivial⟩
  | append_singleton log o ih =>
    obtain ⟨hlog, -, hlast⟩ := List.pairwise_append.mp hd
    obtain ⟨hv, ho⟩ := L.valid_snoc.mp h
    obtain ⟨h1, h2⟩ := ih hv hlog
    have hrep := L.replay_partition p (m := m) hlog
    cases hp : p o with
    | false =>
      simp only [List.filter_append, List.filter_cons, List.filter_nil, hp, Bool.not_false,
        if_true, Bool.false_eq_true, if_false, List.append_nil]
      exact ⟨h1, L.valid_snoc.mpr ⟨h2, hrep ▸ ho⟩⟩
    | true =>
      simp only [List.filter_append, List.filter_cons, List.filter_nil, hp, Bool.not_true,
        if_true, Bool.false_eq_true, if_false, List.append_nil]
      have hfar : ∀ g ∈ log.filter (fun o => !p o), ∀ k ∈ L.footprint o, k ∉ L.footprint g := by
        intro g hg
        rw [List.mem_filter, Bool.not_eq_true'] at hg
        exact hlast g hg.1 o (List.mem_singleton.mpr rfl) hg.2 hp
      refine ⟨L.valid_snoc.mpr ⟨h1, ?_⟩, ?_⟩
      · -- the kept operations did not touch what `o` looks at
        refine L.ok_congr _ _ o ?_ (hrep ▸ ho)
        intro k hk
        exact L.replay_frame (fun g hg => hfar g hg k hk)
      · rw [L.replay_snoc]
        refine h2.congr L ?_
        intro g hg k hk
        exact (L.frame _ o k (fun hko => hfar g hg k hko hk)).symm

end LocalOps

end Turmoil
