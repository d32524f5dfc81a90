/-
# Following a partial function to its end

`chase f n x` follows `f` from `x` for at most `n` steps and returns where it stops; `none` means
that the fuel ran out.  A chain that stops at all visits no point twice, so a fuel larger than
the number of points where `f` is defined is as good as any other (`chase_fuel`): `none` then
means that the chain never stops.

`Stops f x` says that the chain from `x` ends.  A function of which every chain ends has no cycle,
and stays so under one more step from `p` to `t` exactly if `t` did not lead to `p` already
(`stops_update_iff`).
-/
import Mathlib.Data.List.Perm.Subperm
import Mathlib.Logic.Relation

namespace Turmoil

variable {α : Type}

/-- Follow `f` until it is undefined. -/
def chase (f : α → Option α) : Nat → α → Option α
  | 0, _ => none
  | n + 1, x =>
    match f x with
    | some y => chase f n y
    | none => some x

theorem chase_some {f : α → Option α} {x y : α} (h : f x = some y) (n : Nat) :
    chase f (n + 1) x = chase f n y := by simp [chase, h]

theorem chase_none {f : α → Option α} {x : α} (h : f x = none) (n : Nat) :
    chase f (n + 1) x = some x := by simp [chase, h]

/-- More fuel does not change an answer. -/
theorem chase_mono {f : α → Option α} : ∀ {n m : Nat} {x y : α}, chase f n x = some y → n ≤ m →
    chase f m x = some y
  | 0, _, _, _, h, _ => by cases h
  | n + 1, 0, _, _, _, hle => by omega
  | n + 1, m + 1, x, y, h, hle => by
    cases hf : f x with
    | none => rwa [chase_none hf] at h ⊢
    | some z =>
      rw [chase_some hf] at h ⊢
      exact chase_mono h (by omega)

/-- A chain that needs exactly `k` steps passes through `k` different points. -/
theorem chase_visits {f : α → Option α} : ∀ {k : Nat} {x y : α}, chase f (k + 1) x = some y →
    chase f k x = none →
      ∃ l : List α, l.length = k ∧ l.Nodup ∧ ∀ z ∈ l, f z ≠ none ∧ chase f (k + 1) z ≠ none
  | 0, _, _, _, _ => ⟨[], rfl, List.nodup_nil, fun z hz => by cases hz⟩
  | k + 1, x, y, h, hno => by
    cases hf : f x with
    | none =>
      rw [chase_none hf] at hno
      cases hno
    | some x' =>
      have h' := h
      rw [chase_some hf] at h' hno
      obtain ⟨l, hlen, hnd, hl⟩ := chase_visits h' hno
      refine ⟨x :: l, by simp [hlen], List.nodup_cons.mpr ⟨fun hx => ?_, hnd⟩, ?_⟩
      · -- every later point stops with less fuel than `x` needs
        have := (hl x hx).2
        rw [chase_some hf, hno] at this
        exact this rfl
      · intro z hz
        rcases List.mem_cons.mp hz with rfl | hz
        · exact ⟨by simp [hf], by simp [h]⟩
        · obtain ⟨w, hw⟩ := Option.ne_none_iff_exists'.mp (hl z hz).2
          exact ⟨(hl z hz).1, by simp [chase_mono hw (Nat.le_succ (k + 1))]⟩

/-- A chain that stops at all stops within the domain's size. -/
theorem chase_bound {f : α → Option α} {dom : List α} (hdom : ∀ x, f x ≠ none → x ∈ dom) :
    ∀ {n : Nat} {x y : α}, chase f n x = some y → chase f (dom.length + 1) x = some y
  | 0, _, _, h => by cases h
  | n + 1, x, y, h => by
    cases hn : chase f n x with
    | some y' =>
      have := chase_mono hn (Nat.le_succ n)
      rw [h] at this
      cases this
      exact chase_bound hdom hn
    | none =>
      obtain ⟨l, hlen, hnd, hl⟩ := chase_visits h hn
      have hsub : l ⊆ dom := fun z hz => hdom z (hl z hz).1
      have hle := (List.Nodup.subperm hnd hsub).length_le
      exact chase_mono h (by omega)

/-- **Any fuel above the domain's size gives the same answer.** -/
theorem chase_fuel {f : α → Option α} {dom : List α} (hdom : ∀ x, f x ≠ none → x ∈ dom) {n : Nat}
    (hn : dom.length < n) (x : α) : chase f n x = chase f (dom.length + 1) x := by
  cases hc : chase f n x with
  | some y => exact (chase_bound hdom hc).symm
  | none =>
    cases hd : chase f (dom.length + 1) x with
    | none => rfl
    | some y =>
      rw [chase_mono hd hn] at hc
      cases hc

/-! ## Chains that end -/

/-- The chain from `x` ends. -/
def Stops (f : α → Option α) (x : α) : Prop := ∃ n y, chase f n x = some y

/-- One step of the chain. -/
def Leads (f : α → Option α) (x y : α) : Prop := f x = some y

theorem stops_of_none {f : α → Option α} {x : α} (h : f x = none) : Stops f x :=
  ⟨1, x, chase_none h 0⟩

theorem stops_of_some {f : α → Option α} {x y : α} (h : f x = some y) : Stops f x ↔ Stops f y := by
  constructor
  · rintro ⟨n, z, hn⟩
    cases n with
    | zero => cases hn
    | succ n =>
      rw [chase_some h] at hn
      exact ⟨n, z, hn⟩
  · rintro ⟨n, z, hn⟩
    exact ⟨n + 1, z, by rwa [chase_some h]⟩

/-- To prove something of a chain that ends, step by step from its end. -/
theorem Stops.rec_on {f : α → Option α} {motive : α → Prop} {x : α} (h : Stops f x)
    (hend : ∀ x, f x = none → motive x) (hstep : ∀ x y, f x = some y → motive y → motive x) :
    motive x := by
  obtain ⟨n, z, hn⟩ := h
  induction n generalizing x with
  | zero => cases hn
  | succ n ih =>
    cases hf : f x with
    | none => exact hend x hf
    | some y =>
      rw [chase_some hf] at hn
      exact hstep x y hf (ih hn)

/-- A chain that ends does not come back. -/
theorem Stops.not_cyclic {f : α → Option α} {x : α} (h : Stops f x) :
    ¬ Relation.TransGen (Leads f) x x := by
  refine Stops.rec_on (motive := fun x => ¬ Relation.TransGen (Leads f) x x) h
    (fun x hx hc => ?_) fun x y hxy ih hc => ?_
  · obtain ⟨y, hy, -⟩ := Relation.TransGen.head'_iff.mp hc
    rw [Leads, hx] at hy
    cases hy
  · -- the cycle goes through the next point
    obtain ⟨z, hz, hzx⟩ := Relation.TransGen.head'_iff.mp hc
    cases hxy.symm.trans hz
    exact ih (Relation.TransGen.tail' hzx hz)

/-- A function that is defined at fewer points has shorter chains. -/
theorem Stops.restrict {f g : α → Option α} (hg : ∀ x, g x = none ∨ g x = f x) {x : α}
    (h : Stops f x) : Stops g x := by
  refine h.rec_on (fun x hx => stops_of_none ?_) fun x y hxy ih => ?_
  · rcases hg x with hx' | hx'
    · exact hx'
    · exact hx'.trans hx
  · rcases hg x with hx' | hx'
    · exact stops_of_none hx'
    · exact (stops_of_some (hx'.trans hxy)).mpr ih

section Update
variable [DecidableEq α] {f : α → Option α} {p t : α}

/-- Elsewhere the step that is added does not matter. -/
theorem Stops.update_of_not_reached {x : α} (h : Stops f x)
    (hx : ¬ Relation.ReflTransGen (Leads f) x p) : Stops (Function.update f p (some t)) x := by
  revert hx
  refine Stops.rec_on (motive := fun x => ¬ Relation.ReflTransGen (Leads f) x p →
    Stops (Function.update f p (some t)) x) h (fun x hx hreach => stops_of_none ?_)
    fun x y hxy ih hreach => ?_
  · rw [Function.update_of_ne]
    · exact hx
    · rintro rfl
      exact hreach .refl
  · have hne : x ≠ p := by
      rintro rfl
      exact hreach .refl
    refine (stops_of_some (y := y) ?_).mpr (ih fun hr => hreach (.head hxy hr))
    rw [Function.update_of_ne hne]
    exact hxy

/-- A chain that takes the step that is added ends where the chain from the new point does. -/
theorem chase_update {n : Nat} {x y : α} (h : chase (Function.update f p (some t)) n x = some y) :
    (x ≠ p ∧ chase f n x = some y) ∨ chase f n t = some y := by
  induction n generalizing x with
  | zero => cases h
  | succ n ih =>
    by_cases hx : x = p
    · rw [hx, chase_some (Function.update_self ..)] at h
      exact Or.inr (chase_mono ((ih h).elim And.right id) (Nat.le_succ n))
    · cases hf : f x with
      | none =>
        rw [chase_none ((Function.update_of_ne hx ..).trans hf)] at h
        exact Or.inl ⟨hx, by rw [chase_none hf, h]⟩
      | some z =>
        rw [chase_some ((Function.update_of_ne hx ..).trans hf)] at h
        rcases ih h with ⟨-, hz⟩ | ht
        · exact Or.inl ⟨hx, by rw [chase_some hf, hz]⟩
        · exact Or.inr (chase_mono ht (Nat.le_succ n))

/-- **One more step keeps every chain ending** exactly if it does not close a cycle. -/
theorem stops_update_iff (hf : ∀ x, Stops f x) (hp : f p = none) :
    (∀ x, Stops (Function.update f p (some t)) x) ↔ ¬ Relation.ReflTransGen (Leads f) t p := by
  have hnew : Leads (Function.update f p (some t)) p t := Function.update_self ..
  constructor
  · intro h hreach
    have hlift : Relation.ReflTransGen (Leads (Function.update f p (some t))) t p := by
      refine Relation.ReflTransGen.mono (fun x y hxy => ?_) t p hreach
      have hne : x ≠ p := by
        rintro rfl
        rw [Leads, hp] at hxy
        cases hxy
      rw [Leads, Function.update_of_ne hne]
      exact hxy
    exact (h p).not_cyclic (Relation.TransGen.head' hnew hlift)
  · intro hreach x
    have ht := (hf t).update_of_not_reached (t := t) hreach
    refine (hf x).rec_on (fun x hx => ?_) fun x y hxy ih => ?_
    · by_cases hxp : x = p
      · subst hxp
        exact (stops_of_some hnew).mpr ht
      · exact stops_of_none ((Function.update_of_ne hxp ..).trans hx)
    · by_cases hxp : x = p
      · subst hxp
        rw [hp] at hxy
        cases hxy
      · exact (stops_of_some ((Function.update_of_ne hxp ..).trans hxy)).mpr ih

end Update

end Turmoil
