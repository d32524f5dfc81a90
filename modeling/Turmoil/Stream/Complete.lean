/-
# Nothing is lost

The other half of a stream in order: what was written arrives.  The segments under way are all of those
that were sent and have not passed, so with an empty link the reorder buffer is empty too, and a reader
has everything that was written.

The invariant counts: what is under way, with what has passed, is what was sent.  The numbers under way
are distinct and between the two, so none is missing.
-/
import Turmoil.Stream.InOrder
import Mathlib.Data.List.Perm.Subperm

namespace Turmoil.Stream

/-! ## 1. Reordering -/

namespace StreamSocket

/-- A loop that comes up to date has passed what left the buffer, and waits for the next number. -/
theorem bufferLoop_upToDate : ∀ (fuel : Nat) {s s' : StreamSocket} {channel channel' : Channel},
    s.buf.entries.length ≤ fuel → bufferLoop fuel s channel = (s', channel', .upToDate) →
    s'.buf.entries.length + s'.recvSeq = s.buf.entries.length + s.recvSeq
      ∧ s'.buf.get? (s'.recvSeq + 1) = none := by
  intro fuel
  induction fuel with
  | zero =>
    intro s s' channel channel' hfuel h
    cases h
    refine ⟨rfl, IndexMap.lookup_eq_none.mpr ?_⟩
    rw [List.eq_nil_of_length_eq_zero (Nat.le_zero.mp hfuel)]
    exact List.not_mem_nil
  | succ fuel ih =>
    intro s s' channel channel' hfuel h
    rw [bufferLoop] at h
    split at h
    · rename_i hnone
      cases h
      exact ⟨rfl, hnone⟩
    · rename_i segment hget
      have hlen := (IndexMap.swapRemove_entries_perm hget).length_eq
      rw [List.length_cons] at hlen
      dsimp only at h
      split at h
      · cases h
      · split at h
        · split at h
          · obtain ⟨hcount, hnext⟩ := ih (by dsimp only; omega) h
            dsimp only at hcount
            exact ⟨by omega, hnext⟩
          · cases h
          · cases h
        · split at h
          · cases h
          · obtain ⟨hcount, hnext⟩ := ih (by dsimp only; omega) h
            dsimp only at hcount
            exact ⟨by omega, hnext⟩

theorem buffer_upToDate {s s' : StreamSocket} {channel channel' : Channel} {seq : Nat}
    {segment : SequencedSegment} (h : s.buffer channel seq segment = some (s', channel', .upToDate)) :
    s'.buf.entries.length + s'.recvSeq = s.buf.entries.length + 1 + s.recvSeq
      ∧ s'.buf.get? (s'.recvSeq + 1) = none := by
  unfold buffer at h
  split at h
  · cases h
  · rename_i hnew
    have hentries := IndexMap.insert_entries_of_not_contains (Bool.eq_false_iff.mpr hnew) segment
    obtain ⟨hcount, hnext⟩ := bufferLoop_upToDate _
      (Nat.le_of_eq (List.length_map (f := Prod.fst)).symm) (Option.some.inj h)
    dsimp only at hcount
    rw [hentries, List.length_append, List.length_singleton] at hcount
    exact ⟨hcount, hnext⟩

end StreamSocket

namespace Connection

/-! ## 2. The count -/

variable {c c' : Connection} {capacity : Nat} {tr ev : List Event} {s : Side}

/-- What is under way, with what has passed, is what was sent; and the receiving socket waits. -/
structure Whole (c : Connection) (s : Side) : Prop where
  count : (c.direction s).under.length + (c.direction s).recvSeq + 1 = (c.direction s).nextSendSeq
  next : (c.endpoint s.other).socket.buf.get? ((c.endpoint s.other).socket.recvSeq + 1) = none

theorem Whole.new (capacity : Nat) (s : Side) : Whole (Connection.new capacity) s := by
  cases s <;> exact ⟨rfl, rfl⟩

/-- A read leaves the sockets alone. -/
theorem Whole.setReader (h : ∀ s, Whole c s) (t : Side) (r : Reader) (s : Side) :
    Whole (c.setReader t r) s := by
  have hs := h s
  cases t <;> cases s <;> exact ⟨hs.count, hs.next⟩

/-- A segment that is sent is under way. -/
theorem Whole.send (h : ∀ s, Whole c s) {t : Side} (segment : SequencedSegment) (isShutdown : Bool)
    {f : BidiFlowControl} (hread : f.read = (c.flowControl t).read)
    (hc' : c' = ((c.setFlowControl t f).setEndpoint t { c.endpoint t with
      socket := (c.endpoint t).socket.assignSeq.1, isShutdown := isShutdown }).send t
        (c.endpoint t).socket.assignSeq.2 segment) (s : Side) : Whole c' s := by
  obtain ⟨hself, hother⟩ := direction_send c t { c.endpoint t with
    socket := (c.endpoint t).socket.assignSeq.1, isShutdown := isShutdown } f
    (c.endpoint t).socket.assignSeq.2 segment rfl rfl rfl rfl rfl hread
  rw [← hc'] at hself hother
  have hnext : ∀ s', (c'.endpoint s').socket.buf = (c.endpoint s').socket.buf
      ∧ (c'.endpoint s').socket.recvSeq = (c.endpoint s').socket.recvSeq := fun s' => by
    subst hc'
    cases t <;> cases s' <;> exact ⟨rfl, rfl⟩
  refine ⟨?_, by rw [(hnext _).1, (hnext _).2]; exact (h s).next⟩
  rcases Side.cases t s with rfl | rfl
  · have hcount := (h s).count
    rw [hself]
    simp only [direction, List.length_append, List.length_singleton] at hcount ⊢
    show _ = (c.endpoint s).socket.nextSendSeq + 1
    omega
  · rw [hother]
    exact (h t.other).count

/-- A segment that arrives has passed, or waits in the buffer. -/
theorem Whole.deliver (hinv : Inv capacity c tr) (h : ∀ s, Whole c s) {t : Side} {i : Nat}
    (hstep : c.step (.deliver t i) = some (c', ev)) (s : Side) : Whole c' s := by
  cases hi : (c.link t)[i]? with
  | none =>
    simp only [step, Connection.deliver, hi, Option.map_some, Option.some.injEq, Prod.mk.injEq] at hstep
    exact hstep.1 ▸ h s
  | some p =>
    obtain ⟨seq, segment⟩ := p
    obtain ⟨payloads, -, hflows⟩ := hinv.flows t
    obtain ⟨socket, channel, hbuf, -, hsend, -⟩ := hflows.buffer hi
    have hbuf : (c.endpoint t.other).socket.buffer (c.endpoint t.other).channel seq segment
        = some (socket, channel, .upToDate) := hbuf
    simp only [step, Connection.deliver, hi, hbuf, Option.map_some, Option.some.injEq,
      Prod.mk.injEq] at hstep
    obtain ⟨hc', -⟩ := hstep
    obtain ⟨hself, hother⟩ := direction_deliver c t ((c.link t).eraseIdx i)
      { c.endpoint t.other with socket := socket, channel := channel } hsend rfl rfl
    rw [hc'] at hself hother
    obtain ⟨hpassed, hnext⟩ := StreamSocket.buffer_upToDate hbuf
    rcases Side.cases t s with rfl | rfl
    · refine ⟨?_, ?_⟩
      · have hcount := (h s).count
        have hlt := (List.getElem?_eq_some_iff.mp hi).1
        rw [hself]
        simp only [direction, List.length_append] at hcount ⊢
        rw [List.length_eraseIdx_of_lt hlt]
        omega
      · subst hc'
        cases s <;> exact hnext
    · refine ⟨by rw [hother]; exact (h t.other).count, ?_⟩
      have hold := (h t.other).next
      subst hc'
      cases t <;> exact hold

theorem Whole.step (hinv : Inv capacity c tr) (h : ∀ s, Whole c s) {op : Op}
    (hstep : c.step op = some (c', ev)) (s : Side) : Whole c' s := by
  cases op with
  | tryWrite t buf =>
    simp only [Connection.step, Connection.tryWrite] at hstep
    cases hshut : (c.endpoint t).isShutdown with
    | true =>
      rw [hshut] at hstep
      cases hstep
      exact h s
    | false =>
      rw [hshut] at hstep
      cases hempty : buf.isEmpty with
      | true =>
        rw [hempty] at hstep
        cases hstep
        exact h s
      | false =>
        rw [hempty] at hstep
        simp only [Bool.false_eq_true, if_false] at hstep
        by_cases hcredit : (c.flowControl t).write = 0
        · simp only [hcredit, if_true] at hstep
          cases hstep
          exact h s
        · simp only [hcredit, if_false] at hstep
          cases hstep
          exact Whole.send h _ _ (f := { c.flowControl t with write := (c.flowControl t).write - 1 }) rfl
            rfl s
  | pollShutdown t =>
    simp only [Connection.step, Connection.pollShutdown] at hstep
    cases hshut : (c.endpoint t).isShutdown with
    | true =>
      rw [hshut] at hstep
      cases hstep
      exact h s
    | false =>
      rw [hshut] at hstep
      cases hstep
      refine Whole.send h .fin true (f := c.flowControl t) rfl ?_ s
      cases t <;> rfl
  | deliver t i => exact Whole.deliver hinv h hstep s
  | pollRead t filled remaining =>
    simp only [Connection.step] at hstep
    split at hstep <;> cases hstep <;> exact Whole.setReader h t _ s
  | tryReadVectored t bufs =>
    simp only [Connection.step] at hstep
    split at hstep <;> cases hstep <;> exact Whole.setReader h t _ s
  | pollPeek t filled remaining =>
    simp only [Connection.step] at hstep
    split at hstep <;> cases hstep <;> exact Whole.setReader h t _ s
  | pollReadReady t =>
    cases hstep
    exact Whole.setReader h t _ s

theorem Whole.run : ∀ (ops : List Op) {c c' : Connection} {tr evs : List Event}, Inv capacity c tr →
    (∀ s, Whole c s) → c.run ops = some (c', evs) → ∀ s, Whole c' s := by
  intro ops
  induction ops with
  | nil =>
    intro c c' tr evs _ h hrun
    cases hrun
    exact h
  | cons op ops ih =>
    intro c c' tr evs hinv h hrun
    obtain ⟨c₁, ev, hstep, hinv₁⟩ := hinv.step op
    rw [Connection.run, hstep, Option.bind_some] at hrun
    obtain ⟨⟨c₂, evs₂⟩, hrest, hrun⟩ := Option.map_eq_some_iff.mp hrun
    cases hrun
    exact ih hinv₁ (Whole.step hinv h hstep) hrest

/-! ## 3. What arrives -/

/-- The numbers under way are those that were sent and have not passed. -/
theorem Whole.numbers (hinv : Inv capacity c tr) (h : Whole c s) :
    ((c.direction s).under.map Prod.fst).Perm
      (List.range' ((c.direction s).recvSeq + 1) (c.direction s).under.length) := by
  obtain ⟨payloads, -, hflows⟩ := hinv.flows s
  refine (List.subperm_of_subset hflows.nodup fun n hn => ?_).perm_of_length_le ?_
  · obtain ⟨p, hp, rfl⟩ := List.mem_map.mp hn
    have hlow := (hflows.numbered p hp).1
    have hhigh := hflows.under_lt hp
    have hcount := h.count
    rw [List.mem_range'_1]
    omega
  · rewrite [List.length_range', List.length_map]
    exact Nat.le_refl _

/-- With an empty link everything has passed. -/
theorem Whole.passed (hinv : Inv capacity c tr) (h : Whole c s) (hlink : c.link s = []) :
    (c.direction s).under = [] := by
  by_contra hne
  have hmem : (c.direction s).recvSeq + 1 ∈ (c.direction s).under.map Prod.fst := by
    rw [(h.numbers hinv).mem_iff, List.mem_range'_1]
    have hpos := List.length_pos_iff.mpr hne
    omega
  have hunder : (c.direction s).under = (c.endpoint s.other).socket.buf.entries := by
    rw [direction, hlink]
    rfl
  rw [hunder] at hmem
  exact IndexMap.lookup_eq_none.mp h.next hmem

/-- With an empty link the reader has what was written. -/
theorem Whole.arrived (hinv : Inv capacity c tr) (h : Whole c s) (hlink : c.link s = []) :
    readIn s.other tr ++ (c.reader s.other).unread = writtenIn s tr
      ∧ (c.flowControl s).write + (c.endpoint s.other).channel.queue.length = capacity := by
  obtain ⟨payloads, hw, hflows⟩ := hinv.flows s
  have hunder := h.passed hinv hlink
  have hcount := h.count
  have hnext := hflows.next
  have hbytes := hflows.bytes
  have hcredit := hflows.credit
  rw [hunder] at hcount hcredit
  have hlen : payloads.length ≤ (c.direction s).recvSeq := by
    have hle : payloads.length ≤ (sent payloads (c.direction s).isShutdown).length := by
      rw [sent, List.length_append, List.length_map]
      exact Nat.le_add_right _ _
    rw [List.length_nil] at hcount
    omega
  rw [List.take_of_length_le hlen, hw] at hbytes
  refine ⟨hbytes, ?_⟩
  have hcredits : (c.direction s).reader.credits = (c.flowControl s).write := flowControl_other c s
  rw [hcredits, List.countP_nil] at hcredit
  exact hcredit

/-- With an empty link the FIN of an end that was shut down has passed, and the sender is gone. -/
theorem Whole.fin_passed (hinv : Inv capacity c tr) (h : Whole c s) (hlink : c.link s = [])
    (hshut : (c.endpoint s).isShutdown = true) : c.held s.other = false := by
  obtain ⟨payloads, -, hflows⟩ := hinv.flows s
  have hcount := h.count
  have hnext := hflows.next
  have hfin : (c.direction s).isShutdown = true := hshut
  rw [h.passed hinv hlink, List.length_nil] at hcount
  rw [hfin, sent, if_pos rfl, List.length_append, List.length_map, List.length_singleton] at hnext
  refine Bool.eq_false_iff.mpr fun hheld => ?_
  have hle := hflows.sender.mp hheld
  omega

/-- **Nothing is lost.**  Every run returns, and in each direction: the segments under way, on the link
and in the reorder buffer, are those that were sent and have not passed, each once.  When the link is
empty, so is the reorder buffer, what was read and what can be read without another delivery is what was
written, and every credit is back or is that of a segment in the channel. -/
theorem nothing_is_lost (capacity : Nat) (ops : List Op) :
    ∃ c tr, (Connection.new capacity).run ops = some (c, tr) ∧ ∀ s : Side,
      ((c.link s ++ (c.endpoint s.other).socket.buf.entries).map Prod.fst).Perm
          (List.range' ((c.endpoint s.other).socket.recvSeq + 1)
            ((c.endpoint s).socket.nextSendSeq - 1 - (c.endpoint s.other).socket.recvSeq))
        ∧ (c.link s = [] → (c.endpoint s.other).socket.buf.entries = []
          ∧ readIn s.other tr ++ (c.reader s.other).unread = writtenIn s tr
          ∧ (c.flowControl s).write + (c.endpoint s.other).channel.queue.length = capacity) := by
  obtain ⟨c, tr, hrun, hinv⟩ := Inv.run ops (Inv.new capacity)
  have hwhole := Whole.run ops (Inv.new capacity) (Whole.new capacity) hrun
  rw [List.nil_append] at hinv
  refine ⟨c, tr, hrun, fun s => ⟨?_, fun hlink => ?_⟩⟩
  · have hcount := (hwhole s).count
    have hlen : (c.endpoint s).socket.nextSendSeq - 1 - (c.endpoint s.other).socket.recvSeq
        = (c.direction s).under.length := by
      show (c.direction s).nextSendSeq - 1 - (c.direction s).recvSeq = _
      omega
    rw [hlen]
    exact (hwhole s).numbers hinv
  · have hunder := (hwhole s).passed hinv hlink
    rw [direction, hlink] at hunder
    exact ⟨hunder, (hwhole s).arrived hinv hlink⟩

end Connection

end Turmoil.Stream
