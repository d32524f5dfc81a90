/-
# What the callers of a history can tell about durability

A trace is a history with the outcome of each call.  The definitions here read off it, without
looking at any filesystem state, which entries and which bytes the calls so far have made
durable: `entrySynced` for a name, `durableContent` for the bytes of a file.  The second half
says how each of them changes with one more call.
-/
import Turmoil.Fs.History

namespace Turmoil.Fs

open Buffer

/-! ## 1. The history as its callers see it -/

/-- A call and whether it returned `Ok`. -/
structure Event where
  op : FsOp
  ok : Bool

namespace FsState

/-- The calls of a history with their outcomes. -/
def trace : FsState → List FsOp → List Event
  | _, [] => []
  | s, op :: ops => ⟨op, (s.apply op).2.toBool⟩ :: trace (s.apply op).1 ops

/-- The calls the crash image is about: no renames, links and removals, creations only where
nothing is, and data only for files. -/
def PlainCall (s : FsState) : FsOp → Prop
  | .createFile p _ _ => s.entryKind p = none
  | .writeFile p _ _ _ => s.entryKind p = some .file
  | .setFileLen p _ _ => s.entryKind p = some .file
  | .mkdir _ _ _ | .symlink _ _ _ | .syncFile _ | .syncFileData _ | .syncDir _ _ | .crash _ => True
  | _ => False

instance (s : FsState) (op : FsOp) : Decidable (s.PlainCall op) := by
  cases op <;> unfold PlainCall <;> infer_instance

end FsState

namespace Event

/-- The call created `p`. -/
def creates (p : Path) (e : Event) : Bool :=
  e.ok && match e.op with
    | .mkdir q _ _ => q = p
    | .createFile q _ _ => q = p
    | .symlink q _ _ => q = p
    | _ => false

/-- The call made the entry `p` durable. -/
def syncsEntry (p : Path) (isDir : Bool) (e : Event) : Bool :=
  e.ok && match e.op with
    | .syncDir d _ => decide (p.parent = some d) || (isDir && decide (d = p))
    | _ => false

/-- The call made the bytes of `p` durable. -/
def syncsData (p : Path) (e : Event) : Bool :=
  e.ok && match e.op with
    | .syncFile q => q = p
    | .syncFileData q => q = p
    | _ => false

def isCrash (e : Event) : Bool :=
  match e.op with
  | .crash _ => true
  | _ => false

/-- A write or a `set_len` issued to `p`. -/
def dataTo (p : Path) (e : Event) : Bool :=
  match e.op with
  | .writeFile q _ _ _ => q = p
  | .setFileLen q _ _ => q = p
  | _ => false

end Event

/-- What a write or a `set_len` does to the bytes of its file.  A write of nothing is nothing. -/
def FsOp.onContent (c : List UInt8) : FsOp → List UInt8
  | .writeFile _ offset data _ => if data.isEmpty then c else writeAt c offset data
  | .setFileLen _ len _ => resize c len
  | _ => c

/-- The calls after the latest creation of `p`. -/
def sinceCreation (p : Path) (evs : List Event) : List Event :=
  evs.foldl (fun acc e => if e.creates p then [] else acc ++ [e]) []

/-- Has the entry been made durable since its latest creation? -/
def entrySynced (p : Path) (isDir : Bool) (evs : List Event) : Bool :=
  (sinceCreation p evs).any (Event.syncsEntry p isDir)

/-- Does a successful sync of `p` come before the next crash? -/
def syncedBeforeCrash (p : Path) : List Event → Bool
  | [] => false
  | e :: later => e.syncsData p || (!e.isCrash && syncedBeforeCrash p later)

/-- The data calls to `p` that a successful sync of `p` followed before any crash. -/
def durableOps (p : Path) : List Event → List FsOp
  | [] => []
  | e :: later =>
    if e.dataTo p && syncedBeforeCrash p later then e.op :: durableOps p later
    else durableOps p later

/-- The bytes the calls so far have made durable at `p`. -/
def durableContent (p : Path) (evs : List Event) : List UInt8 :=
  (durableOps p (sinceCreation p evs)).foldl FsOp.onContent []

/-- The data calls to `p` up to the last successful sync of `p`, whether or not a crash has
taken them back in between. -/
def opsBeforeLastSync (p : Path) (evs : List Event) : List FsOp :=
  ((evs.reverse.dropWhile fun e => !e.syncsData p).reverse.filter (Event.dataTo p)).map Event.op

/-- The data calls to `p` that neither a sync of `p` nor a crash has followed. -/
def undecidedOps (p : Path) : List Event → List FsOp
  | [] => []
  | e :: later =>
    if e.dataTo p && !later.any (fun x => x.isCrash || x.syncsData p) then
      e.op :: undecidedOps p later
    else undecidedOps p later

/-! ## 2. One more call -/

theorem sinceCreation_snoc (p : Path) (evs : List Event) (e : Event) :
    sinceCreation p (evs ++ [e]) = if e.creates p then [] else sinceCreation p evs ++ [e] := by
  simp [sinceCreation]

theorem syncedBeforeCrash_snoc (p : Path) (evs : List Event) (e : Event) :
    syncedBeforeCrash p (evs ++ [e])
      = (syncedBeforeCrash p evs
        || (!evs.any (fun x => x.isCrash || x.syncsData p) && e.syncsData p)) := by
  induction evs with
  | nil => simp [syncedBeforeCrash]
  | cons x evs ih =>
    rw [List.cons_append, syncedBeforeCrash, syncedBeforeCrash, ih, List.any_cons]
    cases x.syncsData p <;> cases x.isCrash <;> simp

/-- What has no crash or sync behind it is not durable. -/
theorem not_synced_of_unsettled {p : Path} : ∀ {evs : List Event},
    evs.any (fun x => x.isCrash || x.syncsData p) = false → syncedBeforeCrash p evs = false
  | [], _ => rfl
  | x :: evs, h => by
    simp only [List.any_cons, Bool.or_eq_false_iff] at h
    simp [syncedBeforeCrash, h.1.2, not_synced_of_unsettled h.2]

theorem durableOps_of_unsettled {p : Path} : ∀ {evs : List Event},
    evs.any (fun x => x.isCrash || x.syncsData p) = false → durableOps p evs = []
  | [], _ => rfl
  | x :: evs, h => by
    simp only [List.any_cons, Bool.or_eq_false_iff] at h
    simp [durableOps, not_synced_of_unsettled h.2, durableOps_of_unsettled h.2]

/-- A sync of `p` settles what was undecided, after what was durable already. -/
theorem durableOps_snoc (p : Path) (e : Event) (hd : e.dataTo p = false ∨ e.syncsData p = false) :
    ∀ evs : List Event, durableOps p (evs ++ [e])
      = if e.syncsData p then durableOps p evs ++ undecidedOps p evs else durableOps p evs
  | [] => by
    rcases hd with h | h <;> simp [durableOps, undecidedOps, syncedBeforeCrash, h]
  | x :: evs => by
    have ih := durableOps_snoc p e hd evs
    rw [List.cons_append, durableOps, syncedBeforeCrash_snoc, ih]
    cases hs : e.syncsData p with
    | false => simp [durableOps]
    | true =>
      cases hx : x.dataTo p with
      | false => simp [durableOps, undecidedOps, hx]
      | true =>
        cases hu : evs.any (fun x => x.isCrash || x.syncsData p) with
        | true => cases hb : syncedBeforeCrash p evs <;> simp [durableOps, undecidedOps, hx, hu, hb]
        | false =>
          -- the first undecided call: nothing after it is durable yet
          have hb := not_synced_of_unsettled hu
          have hn := durableOps_of_unsettled hu
          simp [durableOps, undecidedOps, hx, hu, hb, hn]

theorem undecidedOps_snoc (p : Path) (e : Event) : ∀ evs : List Event,
    undecidedOps p (evs ++ [e])
      = if e.isCrash || e.syncsData p then (if e.dataTo p then [e.op] else [])
        else if e.dataTo p then undecidedOps p evs ++ [e.op] else undecidedOps p evs
  | [] => by
    cases h : e.dataTo p <;> simp [undecidedOps, h]
  | x :: evs => by
    have ih := undecidedOps_snoc p e evs
    rw [List.cons_append, undecidedOps, ih, List.any_append, List.any_cons, List.any_nil,
      Bool.or_false]
    cases hs : (e.isCrash || e.syncsData p) with
    | true => simp
    | false =>
      simp only [Bool.or_false, Bool.false_eq_true, if_false]
      rw [undecidedOps]
      split <;> split <;> simp

/-- A call that creates nothing at `p` and settles nothing of `p`. -/
structure Event.Foreign (p : Path) (e : Event) : Prop where
  creates : e.creates p = false
  syncsEntry : ∀ b, e.syncsEntry p b = false
  syncsData : e.syncsData p = false
  isCrash : e.isCrash = false
  dataTo : e.dataTo p = false

theorem entrySynced_snoc {p : Path} {e : Event} (hc : e.creates p = false) (b : Bool)
    (evs : List Event) :
    entrySynced p b (evs ++ [e]) = (entrySynced p b evs || e.syncsEntry p b) := by
  simp [entrySynced, sinceCreation_snoc, hc]

/-- The durable bytes change with a sync only, which adds the undecided calls. -/
theorem durableContent_snoc {p : Path} {e : Event} (hc : e.creates p = false)
    (hd : e.dataTo p = false ∨ e.syncsData p = false) (evs : List Event) :
    durableContent p (evs ++ [e])
      = if e.syncsData p
        then (undecidedOps p (sinceCreation p evs)).foldl FsOp.onContent (durableContent p evs)
        else durableContent p evs := by
  unfold durableContent
  rw [sinceCreation_snoc, hc, if_neg (by simp), durableOps_snoc p e hd]
  split
  · rw [List.foldl_append]
  · rfl

/-- A created file starts with no books. -/
theorem books_of_creates {p : Path} {e : Event} (hc : e.creates p = true) (evs : List Event) :
    (∀ b, entrySynced p b (evs ++ [e]) = false) ∧ durableContent p (evs ++ [e]) = []
      ∧ undecidedOps p (sinceCreation p (evs ++ [e])) = [] := by
  simp [entrySynced, durableContent, sinceCreation_snoc, hc, durableOps, undecidedOps]

/-- A foreign call changes no book of `p`. -/
theorem Event.Foreign.books {p : Path} {e : Event} (h : e.Foreign p) (evs : List Event) :
    (∀ b, entrySynced p b (evs ++ [e]) = entrySynced p b evs)
      ∧ durableContent p (evs ++ [e]) = durableContent p evs
      ∧ undecidedOps p (sinceCreation p (evs ++ [e])) = undecidedOps p (sinceCreation p evs) := by
  refine ⟨fun b => ?_, ?_, ?_⟩
  · rw [entrySynced_snoc h.creates, h.syncsEntry, Bool.or_false]
  · rw [durableContent_snoc h.creates (Or.inl h.dataTo), h.syncsData]
    rfl
  · rw [sinceCreation_snoc, h.creates, if_neg (by simp), undecidedOps_snoc, h.isCrash,
      h.syncsData, h.dataTo]
    simp

end Turmoil.Fs
