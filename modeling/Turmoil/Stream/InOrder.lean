/-
# What a connection promises

`Flows` holds of both directions in every state of every run.  A call touches one direction: a write
or a shutdown the one that leaves, a read or a peek the one that arrives, a delivery the one it
belongs to.  So each call has to be checked against one direction, and the other one is framed.

The two theorems are then read off the invariant: what the reads return is what was written, in
order, and the credits add up.
-/
import Turmoil.Stream.Pipeline

namespace Turmoil.Stream

namespace Connection

/-! ## 1. Reading a trace -/

/-- The bytes a side has written. -/
def writtenIn (s : Side) (tr : List Event) : Bytes :=
  (tr.filterMap fun
    | .wrote s' bytes => if s' = s then some bytes else none
    | _ => none).flatten

/-- The bytes the reads of a side have returned. -/
def readIn (s : Side) (tr : List Event) : Bytes :=
  (tr.filterMap fun
    | .read s' _ bytes => if s' = s then some bytes else none
    | _ => none).flatten

/-- A read or a peek of a side that had room and got nothing: the end of the stream. -/
def Ended (s : Side) (tr : List Event) : Prop :=
  ∃ room, 0 < room ∧ (.read s room [] ∈ tr ∨ .peeked s room [] ∈ tr)

theorem writtenIn_append (s : Side) (tr tr' : List Event) :
    writtenIn s (tr ++ tr') = writtenIn s tr ++ writtenIn s tr' := by
  simp [writtenIn, List.filterMap_append]

theorem readIn_append (s : Side) (tr tr' : List Event) :
    readIn s (tr ++ tr') = readIn s tr ++ readIn s tr' := by
  simp [readIn, List.filterMap_append]

theorem ended_append {s : Side} {tr tr' : List Event} (h : Ended s (tr ++ tr')) :
    Ended s tr ∨ Ended s tr' := by
  obtain ⟨room, hpos, hmem | hmem⟩ := h
  · rcases List.mem_append.mp hmem with hmem | hmem
    · exact Or.inl ⟨room, hpos, Or.inl hmem⟩
    · exact Or.inr ⟨room, hpos, Or.inl hmem⟩
  · rcases List.mem_append.mp hmem with hmem | hmem
    · exact Or.inl ⟨room, hpos, Or.inr hmem⟩
    · exact Or.inr ⟨room, hpos, Or.inr hmem⟩

/-! ## 2. The two directions -/

/-- What one direction consists of: the sending end of one side, the receiving end of the other, and
what is under way between them. -/
structure Direction where
  isShutdown : Bool
  nextSendSeq : Nat
  under : List (Nat × SequencedSegment)
  recvSeq : Nat
  held : Bool
  reader : Reader

def direction (c : Connection) (s : Side) : Direction where
  isShutdown := (c.endpoint s).isShutdown
  nextSendSeq := (c.endpoint s).socket.nextSendSeq
  under := c.link s ++ (c.endpoint s.other).socket.buf.entries
  recvSeq := (c.endpoint s.other).socket.recvSeq
  held := c.held s.other
  reader := c.reader s.other

/-- The credits the writes of one side take are those the reads of the other give back. -/
theorem flowControl_other (c : Connection) (s : Side) :
    (c.flowControl s.other).read = (c.flowControl s).write := by
  cases s <;> rfl

/-- A read works on the direction that arrives. -/
theorem direction_setReader (c : Connection) (s : Side) (r : Reader) :
    (c.setReader s.other r).direction s = { c.direction s with reader := r }
      ∧ (c.setReader s r).direction s = c.direction s := by
  cases s <;> exact ⟨rfl, rfl⟩

theorem direction_send (c : Connection) (s : Side) (e : Endpoint) (f : BidiFlowControl) (seq : Nat)
    (segment : SequencedSegment) (hrx : e.rx = (c.endpoint s).rx)
    (hch : e.channel = (c.endpoint s).channel) (hbuf : e.socket.buf = (c.endpoint s).socket.buf)
    (hrecv : e.socket.recvSeq = (c.endpoint s).socket.recvSeq)
    (hsender : e.socket.sender = (c.endpoint s).socket.sender)
    (hread : f.read = (c.flowControl s).read) :
    (((c.setFlowControl s f).setEndpoint s e).send s seq segment).direction s
        = ⟨e.isShutdown, e.socket.nextSendSeq,
            c.link s ++ [(seq, segment)] ++ (c.endpoint s.other).socket.buf.entries,
            (c.endpoint s.other).socket.recvSeq, c.held s.other,
            { c.reader s.other with credits := f.write }⟩
      ∧ (((c.setFlowControl s f).setEndpoint s e).send s seq segment).direction s.other
        = c.direction s.other := by
  cases s <;> refine ⟨rfl, ?_⟩ <;>
    simp_all [direction, setFlowControl, setEndpoint, send, Side.other, held, reader, flowControl,
      BidiFlowControl.invert]

/-- A delivery works on its own direction. -/
theorem direction_deliver (c : Connection) (s : Side) (link : List (Nat × SequencedSegment))
    (e : Endpoint) (hsocket : e.socket.nextSendSeq = (c.endpoint s.other).socket.nextSendSeq)
    (hshut : e.isShutdown = (c.endpoint s.other).isShutdown)
    (hrx : e.rx = (c.endpoint s.other).rx) :
    ({ c with link := Function.update c.link s link }.setEndpoint s.other e).direction s
        = ⟨(c.endpoint s).isShutdown, (c.endpoint s).socket.nextSendSeq,
            link ++ e.socket.buf.entries, e.socket.recvSeq, e.socket.sender,
            { c.reader s.other with channel := e.channel }⟩
      ∧ ({ c with link := Function.update c.link s link }.setEndpoint s.other e).direction s.other
        = c.direction s.other := by
  cases s <;> simp_all [direction, setEndpoint, Side.other, held, reader, flowControl,
      BidiFlowControl.invert]

/-! ## 3. The invariant -/

/-- One direction, given what was written into it and returned from it. -/
def Direction.Flows (capacity : Nat) (d : Direction) (written returned : Bytes) : Prop :=
  ∃ payloads, payloads.flatten = written
    ∧ Stream.Flows capacity payloads d.isShutdown returned d.nextSendSeq d.under d.recvSeq d.held
        d.reader

structure Inv (capacity : Nat) (c : Connection) (tr : List Event) : Prop where
  flows : ∀ s, (c.direction s).Flows capacity (writtenIn s tr) (readIn s.other tr)
  shutdown : ∀ s, (c.endpoint s).isShutdown = true → .shutdown s ∈ tr
  ended : ∀ s, Ended s tr → (c.endpoint s).rx.isClosed = true
  full : ∀ s, .buffered s .full ∉ tr

theorem Inv.new (capacity : Nat) : Inv capacity (Connection.new capacity) [] where
  flows := fun s => by
    refine ⟨[], rfl, ?_⟩
    have hdir : (Connection.new capacity).direction s
        = ⟨false, 1, [], 0, true, ⟨Rx.new, Channel.new capacity, capacity⟩⟩ := by
      cases s <;> rfl
    rw [hdir]
    constructor
    · rfl
    · exact fun b hb => absurd hb (by simp)
    · exact fun p hp => absurd hp (by simp)
    · exact List.nodup_nil
    · exact Nat.le_refl _
    · exact iff_of_true rfl (Nat.le_refl _)
    · rfl
    · exact ⟨by simp [Rx.new], fun b hb => absurd hb (by simp [Channel.new]), fun h => by cases h⟩
    · rfl
    · rfl
    · rfl
  shutdown := fun s h => by cases h
  ended := fun s ⟨_, _, h⟩ => by simp at h
  full := fun s h => by cases h

variable {capacity : Nat} {c : Connection} {tr ev : List Event}

/-- A read or a peek of one side. -/
theorem Inv.read (h : Inv capacity c tr) {s : Side} {r' : Reader} {out : Bytes}
    (hret : Reader.Returns (c.reader s.other) r' out) (hok : r'.Ok (c.held s.other))
    (hev : (ev = [] ∧ out = []) ∨ (∃ room, ev = [.read s.other room out])
      ∨ (∃ room bytes, ev = [.peeked s.other room bytes] ∧ out = []))
    (hend : Ended s.other ev → r'.rx.isClosed = true) :
    Inv capacity (c.setReader s.other r') (tr ++ ev) := by
  obtain ⟨hself, -⟩ := direction_setReader c s r'
  have hother : (c.setReader s.other r').direction s.other = c.direction s.other :=
    (direction_setReader c s.other r').2
  have hreads : readIn s.other ev = out ∧ readIn s ev = [] ∧ ∀ s', writtenIn s' ev = [] := by
    have hne := s.other_ne
    rcases hev with ⟨rfl, rfl⟩ | ⟨room, rfl⟩ | ⟨room, bytes, rfl, rfl⟩
    · simp [readIn, writtenIn]
    · simp [readIn, writtenIn, hne]
    · simp [readIn, writtenIn]
  have hnoend : ¬ Ended s ev := by
    rintro ⟨room, -, hmem⟩
    have hne := s.other_ne
    rcases hev with ⟨rfl, -⟩ | ⟨room', rfl⟩ | ⟨room', bytes, rfl, -⟩
    · simp at hmem
    · simp [hne.symm] at hmem
    · simp [hne.symm] at hmem
  constructor
  · intro s'
    rcases Side.cases s s' with rfl | rfl
    · obtain ⟨payloads, hw, hflows⟩ := h.flows s'
      rw [hself, writtenIn_append, readIn_append, hreads.1, hreads.2.2, List.append_nil]
      exact ⟨payloads, hw, hflows.read hret hok⟩
    · rw [hother, writtenIn_append, readIn_append, Side.other_other, hreads.2.1, hreads.2.2,
        List.append_nil, List.append_nil]
      have := h.flows s.other
      rwa [Side.other_other] at this
  · intro s' hs'
    have hsame : ((c.setReader s.other r').endpoint s').isShutdown = (c.endpoint s').isShutdown := by
      cases s <;> cases s' <;> rfl
    exact List.mem_append_left _ (h.shutdown s' (hsame ▸ hs'))
  · intro s' hs'
    have hsplit := ended_append hs'
    rcases Side.cases s s' with rfl | rfl
    · have hsame : ((c.setReader s'.other r').endpoint s').rx = (c.endpoint s').rx := by
        cases s' <;> rfl
      rw [hsame]
      exact h.ended s' (hsplit.resolve_right hnoend)
    · have hrx : ((c.setReader s.other r').endpoint s.other).rx = r'.rx := by
        cases s <;> rfl
      rw [hrx]
      rcases hsplit with hs' | hs'
      · exact hret.closed (h.ended s.other hs')
      · exact hend hs'
  · intro s' hmem
    rcases List.mem_append.mp hmem with hmem | hmem
    · exact h.full s' hmem
    · rcases hev with ⟨rfl, -⟩ | ⟨room', rfl⟩ | ⟨room', bytes, rfl, -⟩ <;> simp at hmem

/-- A segment leaves one side: a payload, or the FIN. -/
theorem Inv.send (h : Inv capacity c tr) {s : Side} (segment : SequencedSegment) {isShutdown : Bool}
    {f : BidiFlowControl} {c' : Connection} (hopen : (c.endpoint s).isShutdown = false)
    (hread : f.read = (c.flowControl s).read)
    (hc' : c' = ((c.setFlowControl s f).setEndpoint s { c.endpoint s with
      socket := (c.endpoint s).socket.assignSeq.1, isShutdown := isShutdown }).send s
        (c.endpoint s).socket.assignSeq.2 segment)
    (hev : (∃ buf, segment = .data buf ∧ buf ≠ [] ∧ isShutdown = false ∧ ev = [.wrote s buf]
        ∧ f.write + 1 = (c.flowControl s).write)
      ∨ (segment = .fin ∧ isShutdown = true ∧ ev = [.shutdown s]
        ∧ f.write = (c.flowControl s).write)) :
    Inv capacity c' (tr ++ ev) := by
  obtain ⟨hself, hother⟩ := direction_send c s { c.endpoint s with
    socket := (c.endpoint s).socket.assignSeq.1, isShutdown := isShutdown } f
    (c.endpoint s).socket.assignSeq.2 segment rfl rfl rfl rfl rfl hread
  rw [← hc'] at hself hother
  have hreads : ∀ s', readIn s' ev = [] ∧ ¬ Ended s' ev ∧ .buffered s' .full ∉ ev := by
    intro s'
    rcases hev with ⟨buf, -, -, -, rfl, -⟩ | ⟨-, -, rfl, -⟩ <;> simp [readIn, Ended]
  have hwrites : writtenIn s.other ev = [] := by
    have hne := s.ne_other
    rcases hev with ⟨buf, -, -, -, rfl, -⟩ | ⟨-, -, rfl, -⟩ <;> simp [writtenIn, hne]
  constructor
  · intro s'
    rw [writtenIn_append, readIn_append, (hreads _).1, List.append_nil]
    rcases Side.cases s s' with rfl | rfl
    · obtain ⟨payloads, hw, hflows⟩ := h.flows s'
      rw [hself]
      have hperm : ((c.link s' ++ [((c.endpoint s').socket.assignSeq.2, segment)]
          ++ (c.endpoint s'.other).socket.buf.entries)).Perm
          (c.link s' ++ (c.endpoint s'.other).socket.buf.entries
            ++ [((c.endpoint s').socket.assignSeq.2, segment)]) := by
        rw [List.append_assoc, List.append_assoc]
        exact (List.perm_append_comm).append_left _
      have hcredit : (c.direction s').reader.credits = (c.flowControl s').write :=
        flowControl_other c s'
      have hshut : (c.direction s').isShutdown = false := hopen
      rcases hev with ⟨buf, rfl, hne, rfl, rfl, hf⟩ | ⟨rfl, rfl, rfl, hf⟩
      · refine ⟨payloads ++ [buf], by simp [writtenIn, hw], ?_⟩
        refine Stream.Flows.reorder (hflows.send (.data buf) ?_ ⟨[buf], rfl⟩ ?_ hshut ?_) hperm
        · rw [hshut]
          simp [sent]
        · intro b hb
          rcases List.mem_append.mp hb with hb | hb
          · exact hflows.nonempty b hb
          · rw [List.mem_singleton.mp hb]
            exact hne
        · rw [hcredit]
          exact hf
      · refine ⟨payloads, by simp [writtenIn, hw], ?_⟩
        refine Stream.Flows.reorder (hflows.send .fin ?_ ⟨[], by simp⟩ hflows.nonempty
          hshut ?_) hperm
        · rw [hshut]
          simp [sent]
        · rw [hcredit]
          exact hf
    · rw [hother, hwrites, List.append_nil]
      exact h.flows s.other
  · intro s' hs'
    rcases Side.cases s s' with rfl | rfl
    · rcases hev with ⟨buf, -, -, rfl, -, -⟩ | ⟨-, -, rfl, -⟩
      · have : (c'.direction s').isShutdown = true := hs'
        rw [hself] at this
        cases this
      · simp
    · have : (c'.direction s.other).isShutdown = true := hs'
      rw [hother] at this
      exact List.mem_append_left _ (h.shutdown _ this)
  · intro s' hs'
    have hrx : (c'.endpoint s').rx = (c.endpoint s').rx := by
      subst hc'
      cases s <;> cases s' <;> rfl
    rw [hrx]
    exact h.ended s' ((ended_append hs').resolve_right (hreads s').2.1)
  · intro s' hmem
    exact (List.mem_append.mp hmem).elim (h.full s') (hreads s').2.2

/-- A delivery finds its place, and the channel is not full. -/
theorem Inv.deliver (h : Inv capacity c tr) {s : Side} {i : Nat} :
    ∃ c' ev, c.step (.deliver s i) = some (c', ev) ∧ Inv capacity c' (tr ++ ev) := by
  cases hi : (c.link s)[i]? with
  | none => exact ⟨c, [], by simp [step, Connection.deliver, hi], by rwa [List.append_nil]⟩
  | some p =>
    obtain ⟨seq, segment⟩ := p
    obtain ⟨payloads, hw, hflows⟩ := h.flows s
    obtain ⟨socket, channel, hbuf, hflows', hnext, -⟩ := hflows.buffer hi
    have hbuf : (c.endpoint s.other).socket.buffer (c.endpoint s.other).channel seq segment
        = some (socket, channel, .upToDate) := hbuf
    have hstep : c.step (.deliver s i)
        = some ({ c with link := Function.update c.link s ((c.link s).eraseIdx i) }.setEndpoint s.other
          { c.endpoint s.other with socket := socket, channel := channel },
          [.buffered s .upToDate]) := by
      simp only [step, Connection.deliver, hi, hbuf, Option.map_some]
      rfl
    refine ⟨_, _, hstep, ?_⟩
    obtain ⟨hself, hother⟩ := direction_deliver c s ((c.link s).eraseIdx i)
      { c.endpoint s.other with socket := socket, channel := channel } hnext rfl rfl
    constructor
    · intro s'
      have hnone : writtenIn s' [.buffered s .upToDate] = []
          ∧ readIn s'.other [.buffered s .upToDate] = [] := by
        simp [writtenIn, readIn]
      rw [writtenIn_append, readIn_append, hnone.1, hnone.2, List.append_nil, List.append_nil]
      rcases Side.cases s s' with rfl | rfl
      · rw [hself]
        exact ⟨payloads, hw, hflows'⟩
      · rw [hother]
        exact h.flows s.other
    · intro s' hs'
      refine List.mem_append_left _ (h.shutdown s' ?_)
      rcases Side.cases s s' with rfl | rfl
      · have := congrArg Direction.isShutdown hself
        exact this.symm.trans hs'
      · have := congrArg Direction.isShutdown hother
        exact this.symm.trans hs'
    · intro s' hs'
      have hs' := (ended_append hs').resolve_right (by simp [Ended])
      have hrx := h.ended s' hs'
      cases s <;> cases s' <;> exact hrx
    · intro s' hmem
      rcases List.mem_append.mp hmem with hmem | hmem
      · exact h.full s' hmem
      · simp at hmem

/-- Reading a side is reading the direction that arrives there. -/
theorem Inv.reader (h : Inv capacity c tr) (s : Side) : (c.reader s).Ok (c.held s) := by
  obtain ⟨_, _, hflows⟩ := h.flows s.other
  have hok := hflows.reader
  unfold direction at hok
  rwa [Side.other_other] at hok

theorem Inv.idle (h : Inv capacity c tr) : Inv capacity c (tr ++ []) := by
  rwa [List.append_nil]

/-- **One call**: it returns, and keeps the invariant. -/
theorem Inv.step (h : Inv capacity c tr) (op : Op) :
    ∃ c' ev, c.step op = some (c', ev) ∧ Inv capacity c' (tr ++ ev) := by
  cases op with
  | tryWrite s buf =>
    simp only [Connection.step, Connection.tryWrite]
    cases hshut : (c.endpoint s).isShutdown with
    | true => exact ⟨_, _, rfl, h.idle⟩
    | false =>
      cases buf with
      | nil =>
        refine ⟨c, [.wrote s []], rfl, ?_, ?_, ?_, ?_⟩
        · intro s'
          rw [writtenIn_append, readIn_append]
          have hnone : writtenIn s' [.wrote s []] = [] ∧ readIn s'.other [.wrote s []] = [] := by
            simp only [writtenIn, readIn, List.filterMap_cons, List.filterMap_nil]
            split <;> simp_all
          rw [hnone.1, hnone.2, List.append_nil, List.append_nil]
          exact h.flows s'
        · exact fun s' hs' => List.mem_append_left _ (h.shutdown s' hs')
        · exact fun s' hs' => h.ended s' ((ended_append hs').resolve_right (by simp [Ended]))
        · intro s' hmem
          exact (List.mem_append.mp hmem).elim (h.full s') (by simp)
      | cons b buf =>
        simp only [Bool.false_eq_true, if_false, List.isEmpty_cons]
        by_cases hcredit : (c.flowControl s).write = 0
        · simp only [hcredit, if_true]
          exact ⟨_, _, rfl, h.idle⟩
        · simp only [hcredit, if_false]
          refine ⟨_, _, rfl, ?_⟩
          rw [List.take_length]
          exact h.send (.data (b :: buf))
            (f := { c.flowControl s with write := (c.flowControl s).write - 1 }) hshut rfl rfl
            (Or.inl ⟨b :: buf, rfl, by simp, rfl, rfl,
              Nat.sub_add_cancel (Nat.pos_of_ne_zero hcredit)⟩)
  | pollShutdown s =>
    simp only [Connection.step, Connection.pollShutdown]
    cases hshut : (c.endpoint s).isShutdown with
    | true => exact ⟨_, _, rfl, h.idle⟩
    | false =>
      refine ⟨_, _, rfl, h.send .fin (f := c.flowControl s) hshut rfl ?_
        (Or.inr ⟨rfl, rfl, rfl, rfl⟩)⟩
      cases s <;> rfl
  | deliver s i => exact h.deliver
  | pollRead t filled remaining =>
    obtain ⟨s, rfl⟩ : ∃ s : Side, t = s.other := ⟨t.other, t.other_other.symm⟩
    simp only [Connection.step]
    generalize hres : (c.reader s.other).pollRead (c.held s.other) (c.state s.other) filled remaining
      = res
    obtain ⟨r', res⟩ := res
    obtain ⟨hok, hready, hnot, -⟩ := Reader.pollRead_spec (h.reader s.other) hres
    cases res with
    | ready out =>
      obtain ⟨hret, hclosed⟩ := hready out rfl
      refine ⟨_, _, rfl, h.read hret hok (Or.inr (Or.inl ⟨_, rfl⟩)) ?_⟩
      rintro ⟨room, hpos, hmem⟩
      simp only [List.mem_singleton, reduceCtorEq, or_false, Event.read.injEq, true_and] at hmem
      exact hclosed hmem.2.symm (hmem.1 ▸ hpos)
    | pending =>
      exact ⟨_, _, rfl, h.read (hnot fun out ho => by cases ho) hok (Or.inl ⟨rfl, rfl⟩)
        (by simp [Ended])⟩
    | failed e =>
      exact ⟨_, _, rfl, h.read (hnot fun out ho => by cases ho) hok (Or.inl ⟨rfl, rfl⟩)
        (by simp [Ended])⟩
  | tryReadVectored t bufs =>
    obtain ⟨s, rfl⟩ : ∃ s : Side, t = s.other := ⟨t.other, t.other_other.symm⟩
    simp only [Connection.step]
    generalize hres : (c.reader s.other).tryReadVectored (c.held s.other) (c.state s.other) bufs = res
    obtain ⟨r', res⟩ := res
    obtain ⟨hok, hready, hnot, -⟩ := Reader.readLoop_spec _ (h.reader s.other)
      (by split <;> omega) hres
    cases res with
    | ok out =>
      obtain ⟨⟨more, rfl, hret⟩, hclosed⟩ := hready out rfl
      refine ⟨_, _, rfl, h.read hret hok (Or.inr (Or.inl ⟨_, rfl⟩)) ?_⟩
      rintro ⟨room, hpos, hmem⟩
      simp only [List.mem_singleton, reduceCtorEq, or_false, Event.read.injEq, true_and] at hmem
      exact hclosed hmem.2.symm (hmem.1 ▸ hpos)
    | error e =>
      exact ⟨_, _, rfl, h.read (hnot e rfl).2 hok (Or.inl ⟨rfl, rfl⟩) (by simp [Ended])⟩
  | pollPeek t filled remaining =>
    obtain ⟨s, rfl⟩ : ∃ s : Side, t = s.other := ⟨t.other, t.other_other.symm⟩
    simp only [Connection.step]
    generalize hres : (c.reader s.other).pollPeek (c.held s.other) (c.state s.other) filled remaining
      = res
    obtain ⟨r', res⟩ := res
    obtain ⟨hok, hret, -, hready⟩ := Reader.pollPeek_spec (h.reader s.other) hres
    cases res with
    | ready out =>
      refine ⟨_, _, rfl, h.read hret hok (Or.inr (Or.inr ⟨_, _, rfl, rfl⟩)) ?_⟩
      rintro ⟨room, hpos, hmem⟩
      simp only [List.mem_singleton, reduceCtorEq, false_or, Event.peeked.injEq, true_and] at hmem
      exact (hready out rfl).1 hmem.2.symm (hmem.1 ▸ hpos)
    | pending => exact ⟨_, _, rfl, h.read hret hok (Or.inl ⟨rfl, rfl⟩) (by simp [Ended])⟩
    | failed e => exact ⟨_, _, rfl, h.read hret hok (Or.inl ⟨rfl, rfl⟩) (by simp [Ended])⟩
  | pollReadReady t =>
    obtain ⟨s, rfl⟩ : ∃ s : Side, t = s.other := ⟨t.other, t.other_other.symm⟩
    simp only [Connection.step]
    generalize hres : (c.reader s.other).pollFill (c.held s.other) (c.state s.other) = res
    obtain ⟨r', res⟩ := res
    obtain ⟨hret, hok, -, -⟩ := Reader.pollFill_spec (h.reader s.other) hres
    exact ⟨_, _, rfl, h.read hret hok (Or.inl ⟨rfl, rfl⟩) (by simp [Ended])⟩

theorem Inv.run : ∀ (ops : List Op) {c : Connection} {tr : List Event}, Inv capacity c tr →
    ∃ c' evs, c.run ops = some (c', evs) ∧ Inv capacity c' (tr ++ evs)
  | [], c, tr, h => ⟨c, [], rfl, h.idle⟩
  | op :: ops, c, tr, h => by
    obtain ⟨c1, ev, h1, hinv1⟩ := h.step op
    obtain ⟨c2, evs, h2, hinv2⟩ := Inv.run ops hinv1
    refine ⟨c2, ev ++ evs, ?_, by rwa [← List.append_assoc]⟩
    rw [Connection.run, h1, Option.bind_some]
    dsimp only
    rw [h2]
    rfl

/-! ## 4. A peek and the read after it -/

/-- Is the call a read of the given side? -/
def Op.reads (s : Side) : Op → Bool
  | .pollRead s' _ _ => s' == s
  | .tryReadVectored s' _ => s' == s
  | _ => false

/-- The room a read offers. -/
def Op.room : Op → Nat
  | .pollRead _ _ remaining => remaining
  | .tryReadVectored _ bufs => bufs.sum
  | _ => 0

theorem setReader_rx (c : Connection) (s t : Side) (r : Reader) :
    ((c.setReader t r).endpoint s).rx = if s = t then r.rx else (c.endpoint s).rx := by
  cases s <;> cases t <;> rfl

/-- Only a read of a side touches its stash once there is one. -/
theorem stash_kept (h : Inv capacity c tr) {c' : Connection} {s : Side} {op : Op} {b : Bytes}
    (hop : op.reads s = false) (hstep : c.step op = some (c', ev))
    (hb : (c.endpoint s).rx.buffer = some b) : (c'.endpoint s).rx.buffer = some b := by
  -- a call on the reader of `t` that keeps its stash
  have hreader : ∀ (t : Side) (r : Reader), (s = t → r.rx.buffer = some b) →
      ((c.setReader t r).endpoint s).rx.buffer = some b := by
    intro t r hr
    rw [setReader_rx]
    split
    · rename_i heq
      exact hr heq
    · exact hb
  cases op with
  | tryWrite t buf =>
    simp only [Connection.step, Connection.tryWrite] at hstep
    split at hstep
    · rename_i hw
      cases hstep
      split at hw
      · cases hw
      · split at hw
        · cases hw
          exact hb
        · split at hw
          · cases hw
          · cases hw
            cases s <;> cases t <;> exact hb
    · rename_i hw
      cases hstep
      split at hw
      · cases hw
        exact hb
      · split at hw
        · cases hw
        · split at hw
          · cases hw
            exact hb
          · cases hw
  | pollShutdown t =>
    simp only [Connection.step, Connection.pollShutdown] at hstep
    split at hstep
    · rename_i hw
      cases hstep
      split at hw
      · cases hw
      · cases hw
        cases s <;> cases t <;> exact hb
    · rename_i hw
      cases hstep
      split at hw
      · cases hw
        exact hb
      · cases hw
  | deliver t i =>
    simp only [Connection.step, Connection.deliver] at hstep
    obtain ⟨⟨c1, outcome⟩, hd, heq⟩ := Option.map_eq_some_iff.mp hstep
    cases heq
    split at hd
    · cases hd
      exact hb
    · obtain ⟨⟨socket, channel, outcome'⟩, -, heq⟩ := Option.map_eq_some_iff.mp hd
      cases heq
      cases s <;> cases t <;> exact hb
  | pollRead t filled remaining =>
    have hne : s ≠ t := fun he => by simp [Op.reads, he] at hop
    simp only [Connection.step] at hstep
    split at hstep <;> (cases hstep; exact hreader t _ fun he => absurd he hne)
  | tryReadVectored t bufs =>
    have hne : s ≠ t := fun he => by simp [Op.reads, he] at hop
    simp only [Connection.step] at hstep
    split at hstep <;> (cases hstep; exact hreader t _ fun he => absurd he hne)
  | pollPeek t filled remaining =>
    simp only [Connection.step] at hstep
    generalize hres : (c.reader t).pollPeek (c.held t) (c.state t) filled remaining = res at hstep
    obtain ⟨r', res⟩ := res
    have hkeep := (Reader.pollPeek_spec (h.reader t) hres).2.2.1
    cases res <;> (cases hstep; exact hreader t r' fun he => hkeep b (he ▸ hb))
  | pollReadReady t =>
    simp only [Connection.step] at hstep
    generalize hres : (c.reader t).pollFill (c.held t) (c.state t) = res at hstep
    obtain ⟨r', res⟩ := res
    have hkeep := (Reader.pollFill_spec (h.reader t) hres).2.2.2
    cases hstep
    exact hreader t r' fun he => (hkeep b (he ▸ hb)).1

theorem stash_kept_run (s : Side) {b : Bytes} : ∀ (ops : List Op) {c c' : Connection}
    {tr evs : List Event}, Inv capacity c tr → (∀ op ∈ ops, op.reads s = false) →
    c.run ops = some (c', evs) → (c.endpoint s).rx.buffer = some b →
    Inv capacity c' (tr ++ evs) ∧ (c'.endpoint s).rx.buffer = some b
  | [], c, c', tr, evs, h, _, hrun, hb => by
    cases hrun
    exact ⟨h.idle, hb⟩
  | op :: ops, c, c', tr, evs, h, hops, hrun, hb => by
    obtain ⟨⟨c1, ev1⟩, h1, hrest⟩ := Option.bind_eq_some_iff.mp hrun
    obtain ⟨⟨c2, ev2⟩, h2, heq⟩ := Option.map_eq_some_iff.mp hrest
    cases heq
    obtain ⟨c1', ev1', h1', hinv1⟩ := h.step op
    cases h1.symm.trans h1'
    have hb1 := stash_kept h (hops op (by simp)) h1 hb
    obtain ⟨hinv2, hb2⟩ := stash_kept_run s ops hinv1 (fun op hop => hops op (by simp [hop])) h2 hb1
    exact ⟨by rwa [List.append_assoc] at hinv2, hb2⟩

/-- A read returns the head of the stash, as far as there is room for it. -/
theorem read_stash (h : Inv capacity c tr) {c' : Connection} {s : Side} {op : Op} {b : Bytes}
    (hop : op.reads s = true) (hroom : 0 < op.room) (hstep : c.step op = some (c', ev))
    (hb : (c.endpoint s).rx.buffer = some b) :
    ∃ out, ev = [.read s op.room out] ∧ b.take op.room <+: out := by
  cases op with
  | pollRead t filled remaining =>
    cases (show t = s by simpa [Op.reads] using hop)
    simp only [Connection.step] at hstep
    generalize hres : (c.reader s).pollRead (c.held s) (c.state s) filled remaining = res at hstep
    obtain ⟨r', res⟩ := res
    have hout := (Reader.pollRead_spec (h.reader s) hres).2.2.2 b hb (Nat.add_pos_right _ hroom)
    cases hout
    cases hstep
    refine ⟨_, rfl, ?_⟩
    rewrite [Op.room, Nat.min_comm, ← List.take_take, List.take_length]
    exact List.prefix_rfl
  | tryReadVectored t bufs =>
    cases (show t = s by simpa [Op.reads] using hop)
    simp only [Connection.step] at hstep
    generalize hres : (c.reader s).tryReadVectored (c.held s) (c.state s) bufs = res at hstep
    obtain ⟨r', res⟩ := res
    obtain ⟨out, rfl, hpre⟩ := (Reader.readLoop_spec _ (h.reader s) (by split <;> omega) hres).2.2.2
      b hb
    cases hstep
    exact ⟨out, rfl, hpre⟩
  | tryWrite => cases hop
  | pollShutdown => cases hop
  | deliver => cases hop
  | pollPeek => cases hop
  | pollReadReady => cases hop

/-- What a peek showed is what the next read returns, whatever else happens in between. -/
theorem peek_then_read (h : Inv capacity c tr) {s : Side} {filled remaining : Nat} {c1 : Connection}
    {p : Bytes} (hpeek : c.step (.pollPeek s filled remaining) = some (c1, [.peeked s remaining p]))
    (hne : p ≠ []) {ops : List Op} {c2 c3 : Connection} {evs : List Event} {op : Op}
    (hops : ∀ op ∈ ops, op.reads s = false) (hrun : c1.run ops = some (c2, evs))
    (hop : op.reads s = true) (hstep : c2.step op = some (c3, ev)) (hroom : 0 < op.room) :
    ∃ out, ev = [.read s op.room out] ∧ p.take op.room <+: out := by
  obtain ⟨c1', ev1, h1, hinv1⟩ := h.step (.pollPeek s filled remaining)
  cases hpeek.symm.trans h1
  simp only [Connection.step] at hpeek
  generalize hres : (c.reader s).pollPeek (c.held s) (c.state s) filled remaining = res at hpeek
  obtain ⟨r', res⟩ := res
  have hready := (Reader.pollPeek_spec (h.reader s) hres).2.2.2
  cases res with
  | pending => cases hpeek
  | failed e => cases hpeek
  | ready out =>
    cases hpeek
    obtain ⟨b, hb, hout⟩ := (hready p rfl).2 hne
    have hb1 : ((c.setReader s r').endpoint s).rx.buffer = some b := by
      rw [setReader_rx, if_pos rfl]
      exact hb
    obtain ⟨hinv2, hb2⟩ := stash_kept_run s ops hinv1 hops hrun hb1
    obtain ⟨out, hev, hpre⟩ := read_stash hinv2 hop hroom hstep hb2
    refine ⟨out, hev, List.IsPrefix.trans ?_ hpre⟩
    rw [hout, List.take_take, Nat.min_comm, ← List.take_take]
    exact List.take_prefix _ _

/-! ## 5. The theorems -/

/-- **The stream arrives in order.**  Every run returns, and in each direction: what the reads have
returned is a prefix of what was written; the end is seen only after the writer has shut down and
everything it wrote was returned; a peek takes nothing, and the next read begins with what it
showed, as far as it has room. -/
theorem stream_in_order (capacity : Nat) (ops : List Op) :
    ∃ c tr, (Connection.new capacity).run ops = some (c, tr) ∧ ∀ s : Side,
      readIn s.other tr <+: writtenIn s tr
      ∧ (Ended s.other tr → .shutdown s ∈ tr ∧ readIn s.other tr = writtenIn s tr)
      ∧ ∀ filled remaining c1 p,
        c.step (.pollPeek s filled remaining) = some (c1, [.peeked s remaining p]) →
        (c1.reader s).unread = (c.reader s).unread
        ∧ (p ≠ [] → ∀ ops' c2 evs op c3 ev, (∀ op ∈ ops', op.reads s = false) →
          c1.run ops' = some (c2, evs) → op.reads s = true → c2.step op = some (c3, ev) →
          0 < op.room → ∃ out, ev = [.read s op.room out] ∧ p.take op.room <+: out) := by
  obtain ⟨c, tr, hrun, hinv⟩ := Inv.run ops (Inv.new capacity)
  rw [List.nil_append] at hinv
  refine ⟨c, tr, hrun, fun s => ⟨?_, fun hend => ?_, fun filled remaining c1 p hpeek => ⟨?_, ?_⟩⟩⟩
  · obtain ⟨payloads, hw, hflows⟩ := hinv.flows s
    exact hw ▸ hflows.prefix_written
  · obtain ⟨payloads, hw, hflows⟩ := hinv.flows s
    obtain ⟨hfin, hall⟩ := hflows.ended (hinv.ended s.other hend)
    exact ⟨hinv.shutdown s hfin, hall.trans hw⟩
  · simp only [Connection.step] at hpeek
    generalize hres : (c.reader s).pollPeek (c.held s) (c.state s) filled remaining = res at hpeek
    obtain ⟨r', res⟩ := res
    have hret := (Reader.pollPeek_spec (hinv.reader s) hres).2.1
    have hr : (c.setReader s r').reader s = r' := by cases s <;> rfl
    cases res <;> cases hpeek
    rw [hr]
    exact hret.bytes
  · intro hne ops' c2 evs op c3 ev hops hrun' hop hstep hroom
    exact peek_then_read hinv hpeek hne hops hrun' hop hstep hroom

/-- **Credits are conserved.**  In every state of every run, in each direction: the credits, the Data
segments on the link, those in the reorder buffer and those in the channel add up to the capacity.
So the channel never refuses a segment. -/
theorem credits_conserved (capacity : Nat) (ops : List Op) :
    ∃ c tr, (Connection.new capacity).run ops = some (c, tr) ∧ ∀ s : Side,
      (c.flowControl s).write + (c.link s).countP (fun p => p.2.isData)
          + (c.endpoint s.other).socket.buf.entries.countP (fun p => p.2.isData)
          + (c.endpoint s.other).channel.queue.length = capacity
      ∧ .buffered s .full ∉ tr := by
  obtain ⟨c, tr, hrun, hinv⟩ := Inv.run ops (Inv.new capacity)
  rw [List.nil_append] at hinv
  refine ⟨c, tr, hrun, fun s => ⟨?_, hinv.full s⟩⟩
  obtain ⟨payloads, -, hflows⟩ := hinv.flows s
  have hcredit := hflows.credit
  have hunder : (c.direction s).under.countP (fun p => p.2.isData)
      = (c.link s).countP (fun p => p.2.isData)
        + (c.endpoint s.other).socket.buf.entries.countP (fun p => p.2.isData) :=
    List.countP_append
  have hcredits : (c.direction s).reader.credits = (c.flowControl s).write := flowControl_other c s
  have hqueue : (c.direction s).reader.channel.queue = (c.endpoint s.other).channel.queue := rfl
  rw [hunder, hcredits, hqueue] at hcredit
  omega

end Connection

end Turmoil.Stream
