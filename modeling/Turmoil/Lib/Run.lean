/-
# Runs of a deterministic system

A system is a step function.  `runAll` is the state after a list of steps, and `Along` says that
every step of a run met a condition on the state it was taken in.  The invariant rule turns what
one conditioned step preserves into what holds after every conditioned run.
-/
import Mathlib.Data.List.Basic

namespace Turmoil

variable {σ ω : Type}

/-- The state after a list of steps. -/
def runAll (step : σ → ω → σ) (s : σ) (ops : List ω) : σ := ops.foldl step s

/-- Every step met the condition in the state it was taken in. -/
def Along (step : σ → ω → σ) (cond : σ → ω → Prop) : σ → List ω → Prop
  | _, [] => True
  | s, op :: ops => cond s op ∧ Along step cond (step s op) ops

instance decidableAlong (step : σ → ω → σ) (cond : σ → ω → Prop)
    [∀ s op, Decidable (cond s op)] : ∀ (s : σ) (ops : List ω), Decidable (Along step cond s ops)
  | _, [] => isTrue trivial
  | s, op :: ops =>
    have := decidableAlong step cond (step s op) ops
    inferInstanceAs (Decidable (cond s op ∧ Along step cond (step s op) ops))

/-- **Invariant rule.**  What holds at the start and is kept by every step that meets the
condition holds after every run whose steps all meet it. -/
theorem Along.invariant {step : σ → ω → σ} {cond : σ → ω → Prop} {inv : σ → Prop}
    (hstep : ∀ s op, inv s → cond s op → inv (step s op)) {ops : List ω} :
    ∀ {s : σ}, inv s → Along step cond s ops → inv (runAll step s ops) := by
  induction ops with
  | nil => exact fun h _ => h
  | cons op ops ih => exact fun h hal => ih (hstep _ op h hal.1) hal.2

/-- **Exact conditions.**  If one step from a good state leads to a good state exactly if it meets
the condition, all states of a run are good exactly if all its steps meet it. -/
theorem along_iff {step : σ → ω → σ} {cond : σ → ω → Prop} {inv : σ → Prop}
    (hstep : ∀ s op, inv s → (inv (step s op) ↔ cond s op)) (ops : List ω) :
    ∀ {s : σ}, inv s →
      ((∀ pre, pre <+: ops → inv (runAll step s pre)) ↔ Along step cond s ops) := by
  induction ops with
  | nil =>
    intro s hs
    refine ⟨fun _ => trivial, fun _ pre hpre => ?_⟩
    rw [List.prefix_nil.mp hpre]
    exact hs
  | cons op ops ih =>
    intro s hs
    constructor
    · intro h
      have hnext : inv (step s op) := h [op] (by simp)
      exact ⟨(hstep s op hs).mp hnext,
        (ih hnext).mp fun pre hpre => h (op :: pre) (List.cons_prefix_cons.mpr ⟨rfl, hpre⟩)⟩
    · rintro ⟨hcond, hal⟩ pre hpre
      have hnext := (hstep s op hs).mpr hcond
      cases pre with
      | nil => exact hs
      | cons op' pre =>
        obtain ⟨rfl, htail⟩ := List.cons_prefix_cons.mp hpre
        exact (ih hnext).mpr hal pre htail

/-! ## Steps that may fail -/

section Fallible

variable {ε : Type} {next : σ → ω → Except ε σ} {cond : σ → ω → Prop} {inv : σ → Prop}

/-- Every step met the condition in the state it was taken in, up to the first one that fails. -/
def AlongOk (next : σ → ω → Except ε σ) (cond : σ → ω → Prop) : σ → List ω → Prop
  | _, [] => True
  | s, op :: ops => cond s op ∧ ∀ s', next s op = .ok s' → AlongOk next cond s' ops

theorem foldlM_cons_eq_ok {s s'' : σ} {op : ω} {ops : List ω} :
    (op :: ops).foldlM next s = .ok s''
      ↔ ∃ s', next s op = .ok s' ∧ ops.foldlM next s' = .ok s'' := by
  rw [List.foldlM_cons]
  cases next s op with
  | error e => exact iff_of_false nofun nofun
  | ok s' => simp [bind, Except.bind]

/-- **Exact conditions.**  If one step that succeeds from a good state leads to a good state exactly
if it meets the condition, and one that fails meets it, then all states of a run are good exactly if
all its steps meet it. -/
theorem alongOk_iff (hstep : ∀ s op s', inv s → next s op = .ok s' → (inv s' ↔ cond s op))
    (hfail : ∀ s op e, next s op = .error e → cond s op) (ops : List ω) :
    ∀ {s : σ}, inv s →
      ((∀ pre s', pre <+: ops → pre.foldlM next s = .ok s' → inv s') ↔
        AlongOk next cond s ops) := by
  induction ops with
  | nil =>
    intro s hs
    refine ⟨fun _ => trivial, fun _ pre s' hpre hrun => ?_⟩
    rw [List.prefix_nil.mp hpre] at hrun
    cases hrun
    exact hs
  | cons op ops ih =>
    intro s hs
    constructor
    · intro h
      have hinv : ∀ s', next s op = .ok s' → inv s' := fun s' hnext =>
        h [op] s' (by simp) (foldlM_cons_eq_ok.mpr ⟨s', hnext, rfl⟩)
      refine ⟨?_, fun s' hnext => ?_⟩
      · cases hnext : next s op with
        | error e => exact hfail s op e hnext
        | ok s' => exact (hstep s op s' hs hnext).mp (hinv s' hnext)
      · refine (ih (hinv s' hnext)).mp fun pre s'' hpre hpre' => ?_
        exact h (op :: pre) s'' (List.cons_prefix_cons.mpr ⟨rfl, hpre⟩)
          (foldlM_cons_eq_ok.mpr ⟨s', hnext, hpre'⟩)
    · rintro ⟨hcond, hal⟩ pre s'' hpre hpre'
      cases pre with
      | nil =>
        cases hpre'
        exact hs
      | cons op' pre =>
        obtain ⟨rfl, htail⟩ := List.cons_prefix_cons.mp hpre
        obtain ⟨s', hnext, hpre'⟩ := foldlM_cons_eq_ok.mp hpre'
        have hs' := (hstep s op' s' hs hnext).mpr hcond
        exact (ih hs').mpr (hal s' hnext) pre s'' htail hpre'

/-- **Conditions that agree where an invariant holds** agree along every run from there. -/
theorem alongOk_congr {good : σ → ω → Prop} (hiff : ∀ s op, inv s → (good s op ↔ cond s op))
    (hkeep : ∀ s op s', inv s → cond s op → next s op = .ok s' → inv s') (ops : List ω) :
    ∀ {s : σ}, inv s → (AlongOk next good s ops ↔ AlongOk next cond s ops) := by
  induction ops with
  | nil => exact fun _ => Iff.rfl
  | cons op ops ih =>
    intro s hs
    constructor
    · rintro ⟨hgood, hrest⟩
      have hcond := (hiff s op hs).mp hgood
      exact ⟨hcond, fun s' hnext => (ih (hkeep s op s' hs hcond hnext)).mp (hrest s' hnext)⟩
    · rintro ⟨hcond, hrest⟩
      exact ⟨(hiff s op hs).mpr hcond,
        fun s' hnext => (ih (hkeep s op s' hs hcond hnext)).mpr (hrest s' hnext)⟩

/-- Every step is one after a run that did not fail. -/
theorem alongOk_iff_forall (ops : List ω) : ∀ {s : σ}, AlongOk next cond s ops ↔
    ∀ pre op s', pre ++ [op] <+: ops → pre.foldlM next s = .ok s' → cond s' op := by
  induction ops with
  | nil =>
    intro s
    refine iff_of_true trivial fun pre op s' hpre => ?_
    have := List.prefix_nil.mp hpre
    simp at this
  | cons op ops ih =>
    intro s
    constructor
    · rintro ⟨hcond, hrest⟩ pre op' s' hpre hrun
      cases pre with
      | nil =>
        obtain ⟨rfl, -⟩ := List.cons_prefix_cons.mp hpre
        cases hrun
        exact hcond
      | cons op'' pre =>
        obtain ⟨rfl, htail⟩ := List.cons_prefix_cons.mp hpre
        obtain ⟨s₁, hnext, hrun⟩ := foldlM_cons_eq_ok.mp hrun
        exact ih.mp (hrest s₁ hnext) pre op' s' htail hrun
    · intro h
      refine ⟨h [] op s (by simp) rfl, fun s₁ hnext => ih.mpr fun pre op' s' hpre hrun => ?_⟩
      exact h (op :: pre) op' s' (List.cons_prefix_cons.mpr ⟨rfl, hpre⟩)
        (foldlM_cons_eq_ok.mpr ⟨s₁, hnext, hrun⟩)

/-- **Invariant rule.** -/
theorem AlongOk.invariant
    (hkeep : ∀ s op s', inv s → cond s op → next s op = .ok s' → inv s') {ops : List ω} :
    ∀ {s : σ}, inv s → AlongOk next cond s ops →
      ∀ pre s', pre <+: ops → pre.foldlM next s = .ok s' → inv s' := by
  induction ops with
  | nil =>
    intro s hs _ pre s' hpre hrun
    rw [List.prefix_nil.mp hpre] at hrun
    cases hrun
    exact hs
  | cons op ops ih =>
    rintro s hs ⟨hcond, hrest⟩ pre s' hpre hrun
    cases pre with
    | nil =>
      cases hrun
      exact hs
    | cons op' pre =>
      obtain ⟨rfl, htail⟩ := List.cons_prefix_cons.mp hpre
      obtain ⟨s₁, hnext, hrun⟩ := foldlM_cons_eq_ok.mp hrun
      exact ih (hkeep s op' s₁ hs hcond hnext) (hrest s₁ hnext) pre s' htail hrun

end Fallible

end Turmoil
