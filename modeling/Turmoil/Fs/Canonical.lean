/-
# Canonical paths

`canonicalize` walks over the components of a path and replaces a symlink it meets by the link's
target, but it takes the target as it is written: its components are not walked over, so a `..` or
another symlink inside it stays in the path.  It does not ask whether what it goes on from is a
directory.  And it remembers every link it has followed, so a link that occurs twice in a path is
taken for a loop.

`Reference` is the resolution POSIX describes, component by component.  `canonicalize` agrees with
it wherever the walk meets none of the three (`canonicalize_is_reference`): no `..` is taken from
what is no directory, and nothing lies below it; the target of a link leads through directories to
its last name, or to nothing; and no link is met again after it has been left.
-/
import Turmoil.Fs.History
import Turmoil.Fs.Shim

namespace Turmoil.Fs

/-! ## 1. The source -/

namespace Path

/-- `PathBuf::pop`. -/
def pop (p : Path) : Path := ⟨p.hasRoot, p.comps.dropLast⟩

/-- `PathBuf::push` of one name. -/
def child (p : Path) (name : String) : Path := ⟨p.hasRoot, p.comps ++ [.normal name]⟩

/-- The path followed by components, without the `.`s among them. -/
def extend (p : Path) (cs : List Component) : Path :=
  ⟨p.hasRoot, p.comps ++ cs.filter (fun c => c ≠ .curDir)⟩

/-- `PathBuf::push`. -/
def push (p q : Path) : Path :=
  if q.hasRoot then q else if p.isEmpty then q else p.extend q.comps

@[simp] theorem pop_child (p : Path) (name : String) : (p.child name).pop = p := by
  simp [pop, child]

@[simp] theorem hasRoot_child (p : Path) (name : String) : (p.child name).hasRoot = p.hasRoot := rfl

@[simp] theorem hasRoot_pop (p : Path) : p.pop.hasRoot = p.hasRoot := rfl

@[simp] theorem hasRoot_extend (p : Path) (cs : List Component) :
    (p.extend cs).hasRoot = p.hasRoot := rfl

@[simp] theorem extend_nil (p : Path) : p.extend [] = p := by simp [extend]

theorem extend_curDir (p : Path) (cs : List Component) :
    p.extend (.curDir :: cs) = p.extend cs := by simp [extend]

theorem extend_normal (p : Path) (name : String) (cs : List Component) :
    p.extend (.normal name :: cs) = (p.child name).extend cs := by simp [extend, child]

end Path

namespace Shim

/-- `MAX_SYMLINK_FOLLOWS`. -/
def maxSymlinkFollows : Nat := 40

/-- The local variables of `canonicalize`. -/
structure Walk where
  result : Path
  visited : List Path
  followed : Nat
  deriving DecidableEq, Repr

def tooManyLinks : ShimError := .io .other "too many levels of symbolic links"
def linkLoop : ShimError := .io .other "symbolic link loop detected"

/-- The loop that follows links; the fuel is one more than the links it may follow. -/
def followLinks (s : FsState) : Nat → Walk → Except ShimError Walk
  | 0, _ => .error tooManyLinks
  | fuel + 1, w =>
    if s.symlinkExists w.result then
      if w.followed + 1 > maxSymlinkFollows then .error tooManyLinks
      else if w.result ∈ w.visited then .error linkLoop
      else
        match s.readLink w.result with
        | .error e => .error (.io .notFound e.text)
        | .ok target =>
          followLinks s fuel
            ⟨w.result.pop.push target, w.result :: w.visited, w.followed + 1⟩
    else .ok w

/-- The loop over the components. -/
def walkComponents (s : FsState) : List Component → Walk → Except ShimError Walk
  | [], w => .ok w
  | .curDir :: cs, w => walkComponents s cs w
  | .parentDir :: cs, w => walkComponents s cs { w with result := w.result.pop }
  | .normal name :: cs, w =>
    match followLinks s (maxSymlinkFollows + 1) { w with result := w.result.child name } with
    | .error e => .error e
    | .ok w => walkComponents s cs w

/-- The check at the end. -/
def finishWalk (s : FsState) : Except ShimError Walk → Except ShimError Path
  | .error e => .error e
  | .ok w =>
    if !s.fileExists w.result && !s.dirExists w.result && !s.symlinkExists w.result then
      .error (.io .notFound "path does not exist")
    else .ok w.result

def canonicalize (s : FsState) (path : Path) : Except ShimError Path :=
  finishWalk s (walkComponents s path.comps ⟨Path.root, [], 0⟩)

end Shim

/-! ## 2. The reference -/

/-- What is still to be taken: a component, or the end of a link's target. -/
inductive Item where
  | comp (c : Component)
  | leave (link : Path)

inductive Outcome where
  | found (path : Path)
  | missing
  | loop

open Shim (maxSymlinkFollows)

/-- **The resolution of a path**: from the directory `cur`, with `n` links followed so far. -/
inductive Reference (s : FsState) : Nat → Path → List Item → Outcome → Prop where
  | done {n : Nat} {cur : Path} (hcur : s.entryKind cur ≠ none) : Reference s n cur [] (.found cur)
  | gone {n : Nat} {cur : Path} (hcur : s.entryKind cur = none) : Reference s n cur [] .missing
  | leave {n : Nat} {cur link : Path} {items : List Item} {out : Outcome}
      (h : Reference s n cur items out) : Reference s n cur (.leave link :: items) out
  | blocked {n : Nat} {cur : Path} {c : Component} {items : List Item}
      (hcur : s.dirExists cur = false) : Reference s n cur (.comp c :: items) .missing
  | here {n : Nat} {cur : Path} {items : List Item} {out : Outcome} (hcur : s.dirExists cur = true)
      (h : Reference s n cur items out) : Reference s n cur (.comp .curDir :: items) out
  | up {n : Nat} {cur : Path} {items : List Item} {out : Outcome} (hcur : s.dirExists cur = true)
      (h : Reference s n cur.pop items out) : Reference s n cur (.comp .parentDir :: items) out
  | enter {n : Nat} {cur : Path} {name : String} {items : List Item} {out : Outcome}
      (hcur : s.dirExists cur = true) (hplain : s.symlinkExists (cur.child name) = false)
      (h : Reference s n (cur.child name) items out) :
      Reference s n cur (.comp (.normal name) :: items) out
  | follow {n : Nat} {cur target : Path} {name : String} {items : List Item} {out : Outcome}
      (hcur : s.dirExists cur = true) (hlink : s.symlinkExists (cur.child name) = true)
      (hn : n < maxSymlinkFollows) (hnew : .leave (cur.child name) ∉ items)
      (hread : s.readLink (cur.child name) = .ok target)
      (h : Reference s (n + 1) (if target.hasRoot then Path.root else cur)
        (target.comps.map .comp ++ .leave (cur.child name) :: items) out) :
      Reference s n cur (.comp (.normal name) :: items) out
  | unreadable {n : Nat} {cur : Path} {name : String} {items : List Item} {e : FsError}
      (hcur : s.dirExists cur = true) (hlink : s.symlinkExists (cur.child name) = true)
      (hn : n < maxSymlinkFollows) (hnew : .leave (cur.child name) ∉ items)
      (hread : s.readLink (cur.child name) = .error e) :
      Reference s n cur (.comp (.normal name) :: items) .missing
  /-- The link is met while its own target is being resolved. -/
  | revisit {n : Nat} {cur : Path} {name : String} {items : List Item}
      (hcur : s.dirExists cur = true) (hlink : s.symlinkExists (cur.child name) = true)
      (hmet : .leave (cur.child name) ∈ items) :
      Reference s n cur (.comp (.normal name) :: items) .loop
  | tooMany {n : Nat} {cur : Path} {name : String} {items : List Item}
      (hcur : s.dirExists cur = true) (hlink : s.symlinkExists (cur.child name) = true)
      (hn : maxSymlinkFollows ≤ n) : Reference s n cur (.comp (.normal name) :: items) .loop

/-- A path resolves in one way. -/
theorem Reference.unique {s : FsState} {n : Nat} {cur : Path} {items : List Item}
    {out out' : Outcome} (h : Reference s n cur items out) (h' : Reference s n cur items out') :
    out = out' := by
  induction h with
  | done hcur =>
    cases h' with
    | done => rfl
    | gone hno => exact absurd hno hcur
  | gone hcur =>
    cases h' with
    | done hyes => exact absurd hcur hyes
    | gone => rfl
  | leave _ ih =>
    cases h' with
    | leave h' => exact ih h'
  | blocked hcur =>
    cases h' with
    | blocked => rfl
    | _ => simp_all
  | here hcur _ ih =>
    cases h' with
    | blocked hno => simp_all
    | here _ h' => exact ih h'
  | up hcur _ ih =>
    cases h' with
    | blocked hno => simp_all
    | up _ h' => exact ih h'
  | enter hcur hplain _ ih =>
    cases h' with
    | enter _ _ h' => exact ih h'
    | _ => simp_all
  | follow hcur hlink hn hnew hread _ ih =>
    cases h' with
    | follow _ _ _ _ hread' h' =>
      cases hread.symm.trans hread'
      exact ih h'
    | tooMany _ _ hn' => omega
    | _ => simp_all
  | unreadable hcur hlink hn hnew hread =>
    cases h' with
    | unreadable => rfl
    | blocked => rfl
    | tooMany _ _ hn' => omega
    | _ => simp_all
  | revisit hcur hlink hmet =>
    cases h' with
    | revisit => rfl
    | tooMany => rfl
    | _ => simp_all
  | tooMany hcur hlink hn =>
    cases h' with
    | revisit => rfl
    | tooMany => rfl
    | follow _ _ hn' => omega
    | unreadable _ _ hn' => omega
    | _ => simp_all

/-- The answer of `canonicalize` is the outcome of the resolution. -/
def Agree : Except ShimError Path → Outcome → Prop
  | .ok q, .found q' => q = q'
  | .error (.io .notFound _), .missing => True
  | .error (.io .other _), .loop => True
  | _, _ => False

/-- No symlink on the way, and no `.` or `..`. -/
structure Clean (s : FsState) (q : Path) : Prop where
  hasRoot : q.hasRoot = true
  normal : ∀ c ∈ q.comps, ∃ name, c = .normal name
  plain : ∀ n < q.comps.length, s.symlinkExists ⟨true, q.comps.take (n + 1)⟩ = false

theorem Clean.root (s : FsState) : Clean s Path.root :=
  ⟨rfl, by simp [Path.root], by simp [Path.root]⟩

theorem Clean.pop {s : FsState} {q : Path} (h : Clean s q) : Clean s q.pop where
  hasRoot := h.hasRoot
  normal c hc := h.normal c (List.dropLast_subset _ hc)
  plain n hn := by
    simp only [Path.pop, List.length_dropLast] at hn
    have hplain := h.plain n (by omega)
    simpa [Path.pop, List.dropLast_eq_take, List.take_take, Nat.min_eq_left (show n + 1 ≤
      q.comps.length - 1 by omega)] using hplain

theorem Clean.child {s : FsState} {q : Path} {name : String} (h : Clean s q)
    (hplain : s.symlinkExists (q.child name) = false) : Clean s (q.child name) where
  hasRoot := h.hasRoot
  normal c hc := by
    rcases List.mem_append.mp hc with hc | hc
    · exact h.normal c hc
    · exact ⟨name, List.mem_singleton.mp hc⟩
  plain n hn := by
    simp only [Path.child, List.length_append, List.length_singleton] at hn
    rcases Nat.lt_or_ge n q.comps.length with hlt | hge
    · have hq := h.plain n hlt
      simpa [Path.child, List.take_append_of_le_length hlt] using hq
    · have hroot : (⟨true, (q.child name).comps⟩ : Path) = q.child name := by
        rw [← h.hasRoot]
        rfl
      have htake : (q.child name).comps.take (n + 1) = (q.child name).comps :=
        List.take_of_length_le (by simp [Path.child]; omega)
      rw [htake, hroot]
      exact hplain

/-- The resolution finds a clean path. -/
theorem Reference.clean {s : FsState} {n : Nat} {cur : Path} {items : List Item} {out : Outcome}
    (h : Reference s n cur items out) (hclean : Clean s cur) :
    ∀ q, out = .found q → Clean s q := by
  induction h with
  | done =>
    rintro q ⟨⟩
    exact hclean
  | leave _ ih => exact ih hclean
  | here _ _ ih => exact ih hclean
  | up _ _ ih => exact ih hclean.pop
  | enter _ hplain _ ih => exact ih (hclean.child hplain)
  | follow _ _ _ _ _ _ ih =>
    refine ih ?_
    split
    · exact Clean.root s
    · exact hclean
  | _ =>
    rintro q ⟨⟩

/-! ## 3. Where the code and the reference part -/

/-- A link's target without `..`; an absolute one has no `.` either. -/
def plainTarget (target : Path) : Bool :=
  target.comps.all fun c =>
    match c with
    | .normal _ => true
    | .curDir => !target.hasRoot
    | .parentDir => false

inductive Reach where
  /-- All directories on the way exist. -/
  | arrives
  /-- One of them is no directory. -/
  | dead
  /-- The way leads through a link, or up. -/
  | crosses
  deriving DecidableEq, Repr

/-- The way of a link's target, as it is written. -/
def reach (s : FsState) : Path → List Component → Reach
  | _, [] => .arrives
  | base, c :: cs =>
    if s.dirExists base then
      match c with
      | .curDir => reach s base cs
      | .parentDir => .crosses
      | .normal name => reach s (base.child name) cs
    else if s.symlinkExists base then .crosses
    else .dead

/-- What the target of the link at `link` is relative to. -/
def targetBase (link target : Path) : Path := if target.hasRoot then Path.root else link.pop

/-- Nothing lies below a path that is no directory, and no `..` leads back. -/
def deadEnd (s : FsState) : Path → List Component → Bool
  | p, [] => s.entryKind p = none
  | p, .curDir :: cs => deadEnd s p cs
  | _, .parentDir :: _ => false
  | p, .normal name :: cs => s.entryKind (p.child name) = none && deadEnd s (p.child name) cs

/-- Following the links from `w` meets none that was left before, and each target leads through
directories to its last name, or to nothing. -/
def linksPlain (s : FsState) (before : List Path) : Nat → Shim.Walk → Bool
  | 0, _ => true
  | fuel + 1, w =>
    if s.symlinkExists w.result then
      if w.followed + 1 > maxSymlinkFollows then true
      else if w.result ∈ w.visited then w.result ∉ before
      else
        match s.readLink w.result with
        | .error _ => true
        | .ok target =>
          plainTarget target &&
            match reach s (targetBase w.result target) target.comps with
            | .arrives =>
              linksPlain s before fuel
                ⟨w.result.pop.push target, w.result :: w.visited, w.followed + 1⟩
            | .dead => s.entryKind (w.result.pop.push target) = none
            | .crosses => false
    else true

/-- **The condition on a path**: a walk of the code over it that the reference takes too. -/
def walkPlain (s : FsState) : List Component → Shim.Walk → Bool
  | [], _ => true
  | c :: cs, w =>
    if s.dirExists w.result then
      match c with
      | .curDir => walkPlain s cs w
      | .parentDir => walkPlain s cs { w with result := w.result.pop }
      | .normal name =>
        linksPlain s w.visited (maxSymlinkFollows + 1) { w with result := w.result.child name } &&
          match Shim.followLinks s (maxSymlinkFollows + 1)
              { w with result := w.result.child name } with
          | .error _ => true
          | .ok w' => walkPlain s cs w'
    else deadEnd s w.result (c :: cs)

/-! ## 4. One component -/

variable {s : FsState}

/-- The last name of a way has been taken, to `p`: a link there is still to be followed. -/
inductive Arrives (s : FsState) : Nat → Path → List Item → Outcome → Prop where
  | plain {n : Nat} {p : Path} {rest : List Item} {out : Outcome}
      (hplain : s.symlinkExists p = false) (h : Reference s n p rest out) : Arrives s n p rest out
  | follow {n : Nat} {p target : Path} {rest : List Item} {out : Outcome}
      (hlink : s.symlinkExists p = true) (hn : n < maxSymlinkFollows) (hnew : .leave p ∉ rest)
      (hread : s.readLink p = .ok target)
      (h : Reference s (n + 1) (targetBase p target)
        (target.comps.map .comp ++ .leave p :: rest) out) : Arrives s n p rest out
  | unreadable {n : Nat} {p : Path} {rest : List Item} {e : FsError}
      (hlink : s.symlinkExists p = true) (hn : n < maxSymlinkFollows) (hnew : .leave p ∉ rest)
      (hread : s.readLink p = .error e) : Arrives s n p rest .missing
  | revisit {n : Nat} {p : Path} {rest : List Item} (hlink : s.symlinkExists p = true)
      (hmet : .leave p ∈ rest) : Arrives s n p rest .loop
  | tooMany {n : Nat} {p : Path} {rest : List Item} (hlink : s.symlinkExists p = true)
      (hn : maxSymlinkFollows ≤ n) : Arrives s n p rest .loop

/-- Taking a name from a directory. -/
theorem Arrives.take {n : Nat} {cur : Path} {name : String} {rest : List Item} {out : Outcome}
    (h : Arrives s n (cur.child name) rest out) (hcur : s.dirExists cur = true) :
    Reference s n cur (.comp (.normal name) :: rest) out := by
  cases h with
  | plain hplain h => exact .enter hcur hplain h
  | follow hlink hn hnew hread h =>
    rw [targetBase, Path.pop_child] at h
    exact .follow hcur hlink hn hnew hread h
  | unreadable hlink hn hnew hread => exact .unreadable hcur hlink hn hnew hread
  | revisit hlink hmet => exact .revisit hcur hlink hmet
  | tooMany hlink hn => exact .tooMany hcur hlink hn

theorem not_symlink_of_dir {p : Path} (h : s.dirExists p = true) : s.symlinkExists p = false := by
  rw [FsState.dirExists_iff] at h
  simp [FsState.symlinkExists, h]

theorem reach_blocked {base : Path} (hbase : s.dirExists base = false) (c : Component)
    (cs : List Component) :
    reach s base (c :: cs) = if s.symlinkExists base then .crosses else .dead := by
  cases c <;> simp [reach, hbase]

theorem reach_curDir {base : Path} (hbase : s.dirExists base = true) (cs : List Component) :
    reach s base (.curDir :: cs) = reach s base cs := by simp [reach, hbase]

theorem reach_parentDir {base : Path} (hbase : s.dirExists base = true) (cs : List Component) :
    reach s base (.parentDir :: cs) = .crosses := by simp [reach, hbase]

theorem reach_normal {base : Path} (hbase : s.dirExists base = true) (name : String)
    (cs : List Component) : reach s base (.normal name :: cs) = reach s (base.child name) cs := by
  simp [reach, hbase]

theorem dir_of_arrives_cons {base : Path} {c : Component} {cs : List Component}
    (h : reach s base (c :: cs) = .arrives) : s.dirExists base = true := by
  by_contra hno
  rw [reach_blocked (eq_false_of_ne_true hno)] at h
  split at h <;> cases h

/-- A way through directories to its last name. -/
theorem Arrives.along {n : Nat} {rest : List Item} {out : Outcome} :
    ∀ {cs : List Component} {base : Path}, s.dirExists base = true → reach s base cs = .arrives →
      Arrives s n (base.extend cs) rest out → Reference s n base (cs.map .comp ++ rest) out
  | [], base, hbase, _, h => by
    rw [Path.extend_nil] at h
    cases h with
    | plain _ h => exact h
    | _ => simp_all [not_symlink_of_dir hbase]
  | .curDir :: cs, base, hbase, hreach, h => by
    rw [reach_curDir hbase] at hreach
    rw [Path.extend_curDir] at h
    exact .here hbase (Arrives.along hbase hreach h)
  | .parentDir :: cs, base, hbase, hreach, h => by
    rw [reach_parentDir hbase] at hreach
    cases hreach
  | .normal name :: cs, base, hbase, hreach, h => by
    rw [reach_normal hbase] at hreach
    rw [Path.extend_normal] at h
    cases cs with
    | nil =>
      rw [Path.extend_nil] at h
      exact h.take hbase
    | cons c cs =>
      have hchild := dir_of_arrives_cons hreach
      exact .enter hbase (not_symlink_of_dir hchild) (Arrives.along hchild hreach h)

/-- A link at the end of such a way lies in a directory. -/
theorem dir_of_arrives : ∀ {cs : List Component} {base : Path}, s.dirExists base = true →
    reach s base cs = .arrives → s.symlinkExists (base.extend cs) = true →
      s.dirExists (base.extend cs).pop = true
  | [], base, hbase, _, hlink => by
    rw [Path.extend_nil, not_symlink_of_dir hbase] at hlink
    cases hlink
  | .curDir :: cs, base, hbase, hreach, hlink => by
    rw [reach_curDir hbase] at hreach
    rw [Path.extend_curDir] at hlink ⊢
    exact dir_of_arrives hbase hreach hlink
  | .parentDir :: cs, base, hbase, hreach, hlink => by
    rw [reach_parentDir hbase] at hreach
    cases hreach
  | .normal name :: cs, base, hbase, hreach, hlink => by
    rw [reach_normal hbase] at hreach
    rw [Path.extend_normal] at hlink ⊢
    cases cs with
    | nil => simpa using hbase
    | cons c cs =>
      exact dir_of_arrives (dir_of_arrives_cons hreach) hreach hlink

theorem not_symlink_of_dead {p : Path} {cs : List Component} (h : reach s p cs = .dead) :
    s.symlinkExists p = false := by
  cases cs with
  | nil => cases h
  | cons c cs =>
    by_cases hdir : s.dirExists p = true
    · exact not_symlink_of_dir hdir
    · rw [reach_blocked (eq_false_of_ne_true hdir)] at h
      by_contra hlink
      rw [if_pos (eq_true_of_ne_false hlink)] at h
      cases h

/-- A way that ends at something that is no directory. -/
theorem reference_of_dead {n : Nat} {rest : List Item} :
    ∀ {cs : List Component} {base : Path}, reach s base cs = .dead →
      Reference s n base (cs.map .comp ++ rest) .missing
  | [], base, h => by cases h
  | c :: cs, base, h => by
    by_cases hdir : s.dirExists base = true
    · cases c with
      | curDir =>
        rw [reach_curDir hdir] at h
        exact .here hdir (reference_of_dead h)
      | parentDir =>
        rw [reach_parentDir hdir] at h
        cases h
      | normal name =>
        rw [reach_normal hdir] at h
        exact .enter hdir (not_symlink_of_dead h) (reference_of_dead h)
    · exact .blocked (eq_false_of_ne_true hdir)

/-! ## 5. The links after a name -/

open Shim (Walk followLinks walkComponents finishWalk canonicalize)

/-- What holds of the local variables throughout. -/
structure Fit (w : Walk) : Prop where
  hasRoot : w.result.hasRoot = true
  followed : w.followed ≤ maxSymlinkFollows

theorem Fit.child {w : Walk} (h : Fit w) (name : String) :
    Fit { w with result := w.result.child name } := ⟨h.hasRoot, h.followed⟩

theorem Fit.pop {w : Walk} (h : Fit w) : Fit { w with result := w.result.pop } :=
  ⟨h.hasRoot, h.followed⟩

/-- The variables after one link. -/
def Shim.Walk.next (w : Walk) (target : Path) : Walk :=
  ⟨w.result.pop.push target, w.result :: w.visited, w.followed + 1⟩

theorem Fit.next {w : Walk} (h : Fit w) (hn : w.followed < maxSymlinkFollows) (target : Path) :
    Fit (w.next target) where
  hasRoot := by
    have hpop : w.result.pop.hasRoot = true := h.hasRoot
    simp only [Shim.Walk.next, Path.push]
    split
    · assumption
    · rw [if_neg (by simp [Path.isEmpty, h.hasRoot])]
      exact hpop
  followed := hn

/-- A plain target, put in a link's place, is the way it describes. -/
theorem push_eq_extend {link target : Path} (hlink : link.hasRoot = true)
    (h : plainTarget target = true) :
    link.pop.push target = (targetBase link target).extend target.comps := by
  have hpop : link.pop.isEmpty = false := by simp [Path.isEmpty, hlink]
  by_cases habs : target.hasRoot = true
  · have hnodots : ∀ c ∈ target.comps, c ≠ .curDir := by
      rintro c hc rfl
      simpa [habs] using List.all_eq_true.mp h _ hc
    rw [Path.push, if_pos habs, targetBase, if_pos habs]
    obtain ⟨r, comps⟩ := target
    cases habs
    have hfilter : comps.filter (fun c => c ≠ .curDir) = comps :=
      List.filter_eq_self.mpr fun c hc => decide_eq_true (hnodots c hc)
    simp only [Path.extend, Path.root, List.nil_append, hfilter]
  · rw [Path.push, if_neg habs, if_neg (by simp [hpop]), targetBase, if_neg habs]

/-- At a link that can be followed. -/
theorem followLinks_next {fuel : Nat} {w : Walk} {target : Path}
    (hlink : s.symlinkExists w.result = true) (hn : w.followed < maxSymlinkFollows)
    (hnew : w.result ∉ w.visited) (hread : s.readLink w.result = .ok target) :
    followLinks s (fuel + 1) w = followLinks s fuel (w.next target) := by
  rw [followLinks, if_pos hlink, if_neg (by omega), if_neg hnew, hread]
  rfl

theorem followLinks_plain {fuel : Nat} {w : Walk} (h : s.symlinkExists w.result = false) :
    followLinks s (fuel + 1) w = .ok w := by simp [followLinks, h]

theorem Fit.of_followLinks : ∀ {fuel : Nat} {w w' : Walk}, Fit w →
    followLinks s fuel w = .ok w' → Fit w'
  | 0, _, _, _, h => by cases h
  | fuel + 1, w, w', hfit, h => by
    by_cases hlink : s.symlinkExists w.result = true
    · rw [followLinks, if_pos hlink] at h
      split at h
      · cases h
      · rename_i hn
        split at h
        · cases h
        · split at h
          · cases h
          · exact Fit.of_followLinks (hfit.next (by omega) _) h
    · rw [followLinks_plain (eq_false_of_ne_true hlink)] at h
      cases h
      exact hfit

/-- What `canonicalize` answers after the links of a component. -/
def goOn (s : FsState) (cs : List Component) (r : Except ShimError Walk) : Except ShimError Path :=
  match r with
  | .error e => .error e
  | .ok w => finishWalk s (walkComponents s cs w)

theorem walkComponents_normal (name : String) (cs : List Component) (w : Walk) :
    finishWalk s (walkComponents s (.normal name :: cs) w) = goOn s cs
      (followLinks s (maxSymlinkFollows + 1) { w with result := w.result.child name }) := by
  cases h : followLinks s (maxSymlinkFollows + 1) { w with result := w.result.child name } <;>
    simp [walkComponents, goOn, finishWalk, h]

/-- The reference takes the components from `w` as the code does. -/
def Meets (s : FsState) (cs : List Component) (w : Walk) : Prop :=
  ∃ out, Reference s w.followed w.result (cs.map .comp) out
    ∧ Agree (finishWalk s (walkComponents s cs w)) out

/-- Nothing is found from what does not exist. -/
theorem Reference.missing_of_none {n : Nat} {p : Path} {cs : List Component} {out : Outcome}
    (h : Reference s n p (cs.map .comp) out) (hp : s.entryKind p = none) : out = .missing := by
  have hdir : s.dirExists p = false := (FsState.entryKind_eq_none_iff.mp hp).2.1
  cases cs with
  | nil => exact h.unique (.gone hp)
  | cons c cs => exact h.unique (.blocked hdir)

theorem Reference.leaves {n : Nat} {p : Path} {items : List Item} {out : Outcome}
    (h : Reference s n p items out) : ∀ chain : List Path,
      Reference s n p (chain.map .leave ++ items) out
  | [] => h
  | _ :: chain => .leave (h.leaves chain)

theorem leave_mem_iff {l : Path} {chain : List Path} {cs : List Component} :
    Item.leave l ∈ chain.map .leave ++ cs.map .comp ↔ l ∈ chain := by simp

/-- **The links after one name**: `chain` are those of this name that were followed so far, and
whose targets the reference has not left yet. -/
theorem follow_chain {cs : List Component} {before : List Path}
    (hroot : s.dirExists Path.root = true) :
    ∀ {fuel : Nat} {w : Walk} {chain : List Path}, Fit w → maxSymlinkFollows < fuel + w.followed →
      w.visited = chain ++ before →
      (s.symlinkExists w.result = true → s.dirExists w.result.pop = true) →
      linksPlain s before fuel w = true →
      (∀ w', followLinks s fuel w = .ok w' → Meets s cs w') →
      ∃ out, Arrives s w.followed w.result (chain.map .leave ++ cs.map .comp) out
        ∧ Agree (goOn s cs (followLinks s fuel w)) out
  | 0, w, _, hfit, hfuel, _, _, _, _ => by
    have := hfit.followed
    omega
  | fuel + 1, w, chain, hfit, hfuel, hvisited, hin, hplain, hrest => by
    by_cases hlink : s.symlinkExists w.result = true
    swap
    · have hplain := eq_false_of_ne_true hlink
      obtain ⟨out, href, hagree⟩ := hrest w (followLinks_plain hplain)
      rw [followLinks_plain hplain]
      exact ⟨out, .plain hplain (href.leaves chain), hagree⟩
    rcases Nat.lt_or_ge w.followed maxSymlinkFollows with hn | hn
    swap
    · refine ⟨.loop, .tooMany hlink hn, ?_⟩
      rw [followLinks, if_pos hlink, if_pos (by omega)]
      trivial
    rw [linksPlain, if_pos hlink, if_neg (by omega)] at hplain
    by_cases hmet : w.result ∈ w.visited
    · rw [if_pos hmet, decide_eq_true_eq] at hplain
      have hchain : w.result ∈ chain := by
        rw [hvisited] at hmet
        exact (List.mem_append.mp hmet).resolve_right hplain
      refine ⟨.loop, .revisit hlink (leave_mem_iff.mpr hchain), ?_⟩
      rw [followLinks, if_pos hlink, if_neg (by omega), if_pos hmet]
      trivial
    rw [if_neg hmet] at hplain
    have hnew : Item.leave w.result ∉ chain.map Item.leave ++ cs.map .comp := fun h =>
      hmet (hvisited ▸ List.mem_append_left _ (leave_mem_iff.mp h))
    cases hread : s.readLink w.result with
    | error e =>
      refine ⟨.missing, .unreadable hlink hn hnew hread, ?_⟩
      rw [followLinks, if_pos hlink, if_neg (by omega), if_neg hmet, hread]
      trivial
    | ok target =>
      simp only [hread, Bool.and_eq_true] at hplain
      obtain ⟨htarget, hway⟩ := hplain
      have hpush : (w.next target).result = _ := push_eq_extend hfit.hasRoot htarget
      have hbase : s.dirExists (targetBase w.result target) = true := by
        unfold targetBase
        split
        · exact hroot
        · exact hin hlink
      have hfit' := hfit.next hn target
      have hfuel' : maxSymlinkFollows < fuel + (w.next target).followed := by
        simp only [Shim.Walk.next]
        omega
      rw [followLinks_next hlink hn hmet hread] at hrest ⊢
      split at hway
      · rename_i harrives
        have hvisited' : (w.next target).visited = (w.result :: chain) ++ before := by
          simp [Shim.Walk.next, hvisited]
        obtain ⟨out, hout, hagree⟩ := follow_chain hroot hfit' hfuel' hvisited'
          (by rw [hpush]; exact dir_of_arrives hbase harrives) hway hrest
        rw [hpush] at hout
        exact ⟨out, .follow hlink hn hnew hread (hout.along hbase harrives), hagree⟩
      · -- the target leads nowhere: the code goes on from what does not exist
        rename_i hdead
        have hnone : s.entryKind (w.next target).result = none := of_decide_eq_true hway
        obtain ⟨fuel, rfl⟩ : ∃ k, fuel = k + 1 := ⟨fuel - 1, by have := hfit'.followed; omega⟩
        have hstop : followLinks s (fuel + 1) (w.next target) = .ok (w.next target) :=
          followLinks_plain (FsState.entryKind_eq_none_iff.mp hnone).2.2
        obtain ⟨out, href, hagree⟩ := hrest _ hstop
        rw [href.missing_of_none hnone] at hagree
        rw [hstop]
        exact ⟨.missing, .follow hlink hn hnew hread (reference_of_dead hdead), hagree⟩
      · cases hway

/-! ## 6. The whole path -/

/-- From a path below which there is nothing, the code reports `NotFound`. -/
theorem walkComponents_deadEnd : ∀ {cs : List Component} {w : Walk}, deadEnd s w.result cs = true →
    finishWalk s (walkComponents s cs w) = .error (.io .notFound "path does not exist")
  | [], w, h => by
    have hnone := FsState.entryKind_eq_none_iff.mp (of_decide_eq_true h)
    simp [walkComponents, finishWalk, hnone]
  | .curDir :: cs, w, h => by
    have hrest : deadEnd s w.result cs = true := h
    exact @walkComponents_deadEnd cs w hrest
  | .parentDir :: cs, w, h => by cases h
  | .normal name :: cs, w, h => by
    rw [deadEnd, Bool.and_eq_true, decide_eq_true_eq] at h
    have hstop : followLinks s (maxSymlinkFollows + 1) { w with result := w.result.child name }
        = .ok { w with result := w.result.child name } :=
      followLinks_plain (FsState.entryKind_eq_none_iff.mp h.1).2.2
    rw [walkComponents, hstop]
    exact walkComponents_deadEnd h.2

/-- At the end of the path. -/
theorem meets_nil (w : Walk) : Meets s [] w := by
  cases hk : s.entryKind w.result with
  | none =>
    refine ⟨.missing, .gone hk, ?_⟩
    rw [walkComponents_deadEnd (by simp [deadEnd, hk])]
    trivial
  | some k =>
    refine ⟨.found w.result, .done (by simp [hk]), ?_⟩
    cases k <;> simp [walkComponents, finishWalk, Agree, FsState.fileExists, FsState.dirExists,
      FsState.symlinkExists, hk]

/-- At what is no directory. -/
theorem meets_of_blocked {c : Component} {cs : List Component} {w : Walk}
    (hdir : s.dirExists w.result = false) (h : walkPlain s (c :: cs) w = true) :
    Meets s (c :: cs) w := by
  have hdead : deadEnd s w.result (c :: cs) = true := by
    cases c <;> simpa [walkPlain, hdir] using h
  refine ⟨.missing, .blocked hdir, ?_⟩
  rw [walkComponents_deadEnd hdead]
  trivial

/-- **The walk of the code is the reference's**, component by component. -/
theorem meets_of_walkPlain (hroot : s.dirExists Path.root = true) :
    ∀ {cs : List Component} {w : Walk}, Fit w → walkPlain s cs w = true → Meets s cs w
  | [], w, _, _ => meets_nil w
  | c :: cs, w, hfit, h => by
    by_cases hdir : s.dirExists w.result = true
    swap
    · exact meets_of_blocked (eq_false_of_ne_true hdir) h
    cases c with
    | curDir =>
      have hrest : walkPlain s cs w = true := by simpa [walkPlain, hdir] using h
      obtain ⟨out, href, hagree⟩ := meets_of_walkPlain hroot hfit hrest
      exact ⟨out, .here hdir href, hagree⟩
    | parentDir =>
      have hrest : walkPlain s cs { w with result := w.result.pop } = true := by
        simpa [walkPlain, hdir] using h
      obtain ⟨out, href, hagree⟩ := meets_of_walkPlain hroot hfit.pop hrest
      exact ⟨out, .up hdir href, hagree⟩
    | normal name =>
      simp only [walkPlain, if_pos hdir, Bool.and_eq_true] at h
      obtain ⟨hlinks, hgo⟩ := h
      have hmeets : ∀ w', followLinks s (maxSymlinkFollows + 1)
          { w with result := w.result.child name } = .ok w' → Meets s cs w' := fun w' hw' => by
        rw [hw'] at hgo
        exact meets_of_walkPlain hroot ((hfit.child name).of_followLinks hw') hgo
      have hvisited : w.visited = [] ++ w.visited := rfl
      obtain ⟨out, hout, hagree⟩ := follow_chain hroot (hfit.child name)
        (by simp only; omega) hvisited (fun _ => by simpa using hdir) hlinks hmeets
      exact ⟨out, hout.take hdir, by rwa [walkComponents_normal]⟩

/-- What the walk starts with. -/
def Shim.start : Walk := ⟨Path.root, [], 0⟩

/-- **`canonicalize` is the resolution of the path**, and what it finds is canonical, whenever the
code's walk goes only through directories, the target of each link on it leads through directories
to its last name or to nothing, and no link is met again after it was left. -/
theorem canonicalize_is_reference (s : FsState) (p : Path)
    (h : walkPlain s p.comps Shim.start = true) :
    (∃ out, Reference s 0 Path.root (p.comps.map .comp) out ∧ Agree (canonicalize s p) out)
      ∧ ∀ q, canonicalize s p = .ok q → Clean s q := by
  have hmeets : Meets s p.comps Shim.start := by
    by_cases hroot : s.dirExists Path.root = true
    · exact meets_of_walkPlain hroot ⟨rfl, Nat.zero_le _⟩ h
    · generalize p.comps = comps at h
      cases comps with
      | nil => exact meets_nil _
      | cons c cs => exact meets_of_blocked (eq_false_of_ne_true hroot) h
  obtain ⟨out, href, hagree⟩ := hmeets
  refine ⟨⟨out, href, hagree⟩, fun q hq => ?_⟩
  have hres : finishWalk s (walkComponents s p.comps Shim.start) = .ok q := hq
  rw [hres] at hagree
  obtain ⟨q', hq', rfl⟩ : ∃ q', out = .found q' ∧ q = q' := by
    cases out with
    | found q' => exact ⟨q', rfl, hagree⟩
    | _ => cases hagree
  exact href.clean (Clean.root s) q hq'

/-- A directory `d` with a link `l` to it. -/
def linked (target : Path) : FsState :=
  (FsState.new FsConfig.default).run
    [.mkdir (Path.abs ["d"]) 0 0o755, .symlink (Path.abs ["l"]) target 0]

/-- Through the link and back. -/
theorem canonicalize_is_reference_small :
    (∃ out, Reference (linked (Path.abs ["d"])) 0 Path.root
          [.comp (.normal "l"), .comp .parentDir, .comp (.normal "d")] out
        ∧ Agree (canonicalize (linked (Path.abs ["d"]))
            ⟨true, [.normal "l", .parentDir, .normal "d"]⟩) out)
      ∧ ∀ q, canonicalize (linked (Path.abs ["d"])) ⟨true, [.normal "l", .parentDir, .normal "d"]⟩
          = .ok q → Clean (linked (Path.abs ["d"])) q :=
  canonicalize_is_reference (linked (Path.abs ["d"])) ⟨true, [.normal "l", .parentDir, .normal "d"]⟩
    (by decide)

/-- **A link that occurs twice in a path is taken for a loop.** -/
theorem second_pass_is_no_loop :
    (canonicalize (linked (Path.abs ["d"])) ⟨true, [.normal "l", .parentDir, .normal "l"]⟩
          = .error Shim.linkLoop
        ∧ Reference (linked (Path.abs ["d"])) 0 Path.root
            [.comp (.normal "l"), .comp .parentDir, .comp (.normal "l")]
            (.found (Path.abs ["d"])))
      ∧ ¬ ∀ (ops : List FsOp) (p : Path), p.hasRoot = true →
          ∃ out, Reference ((FsState.new FsConfig.default).run ops) 0 Path.root
              (p.comps.map .comp) out
            ∧ Agree (canonicalize ((FsState.new FsConfig.default).run ops) p) out := by
  have hloop : canonicalize (linked (Path.abs ["d"]))
      ⟨true, [.normal "l", .parentDir, .normal "l"]⟩ = .error Shim.linkLoop := by decide
  have hthrough : ∀ {n : Nat} {items : List Item} {out : Outcome}, n < maxSymlinkFollows →
      Item.leave (Path.abs ["l"]) ∉ items →
      Reference (linked (Path.abs ["d"])) (n + 1) (Path.abs ["d"]) items out →
      Reference (linked (Path.abs ["d"])) n Path.root (.comp (.normal "l") :: items) out := by
    intro n items out hn hnew h
    have hread : (linked (Path.abs ["d"])).readLink (Path.root.child "l")
        = .ok (Path.abs ["d"]) := rfl
    refine .follow rfl rfl hn hnew hread ?_
    exact .enter rfl rfl (.leave h)
  have hfound : Reference (linked (Path.abs ["d"])) 0 Path.root
      [.comp (.normal "l"), .comp .parentDir, .comp (.normal "l")] (.found (Path.abs ["d"])) :=
    hthrough (by decide) (by simp) (.up rfl (hthrough (by decide) (by simp) (.done (by decide))))
  refine ⟨⟨hloop, hfound⟩, fun h => ?_⟩
  obtain ⟨out, href, hagree⟩ := h _ ⟨true, [.normal "l", .parentDir, .normal "l"]⟩ rfl
  cases hfound.unique href
  exact (hloop ▸ hagree : Agree (.error Shim.linkLoop) (.found (Path.abs ["d"])))

end Turmoil.Fs
