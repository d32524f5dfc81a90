/-
# Readiness

`TcpStream::poll_ready` looks at the socket entry first, then at the stash and the channel, and for
writing at the entry and the credits.  The operations it speaks for look at the same things in
another order: `try_read_vectored` at the stash and the channel, and only where the channel has
ended at the entry.

The two agree as long as the entry found under the stream's pair is the stream's own
(`readiness_agrees_iff`).  A read half that outlives its connection may find the entry of a later
connection there, and an open one: then the read reports the reset, as it should, and readiness is
not reported but fails.  What makes the rest go through is that nobody sends a segment without
bytes: a segment in the stash or in the channel is something to read (`NoEmpty`).
-/
import Turmoil.Stream.Pipeline
import Turmoil.Stream.Trace

namespace Turmoil.Stream

open Turmoil.Net (IpAddr SocketAddr)

/-! ## 1. The source -/

/-- The errors of `try_write`; `unreachable` is the one of `send_message`. -/
inductive SendError where
  | brokenPipe
  | wouldBlock
  | unreachable
  deriving DecidableEq, Repr

/-- The interests a caller may ask for; `other` is any besides the two. -/
structure Interest where
  readable : Bool
  writable : Bool
  other : Bool
  deriving DecidableEq, Repr

structure Ready where
  readable : Bool
  readClosed : Bool
  writable : Bool
  writeClosed : Bool
  deriving DecidableEq, Repr

def Ready.empty : Ready := ⟨false, false, false, false⟩

inductive ReadyError where
  | invalidInput
  | connectionReset
  deriving DecidableEq, Repr

namespace World

/-- What the reads of a half work on. -/
def readerOf (w : World) (half : ReadHalf) : Reader :=
  ⟨half.rx, w.channels half.stream, w.credits half.flow⟩

/-- `WriteHalf::try_write`, with its result. -/
def tryWriteOn (w : World) (half : WriteHalf) (buf : Bytes) : World × Except SendError Nat :=
  if half.isShutdown then (w, .error .brokenPipe)
  else if buf.isEmpty then (w, .ok 0)
  else if w.streamState half.place = .reset then (w, .error .brokenPipe)
  else if w.credits half.flow = 0 then (w, .error .wouldBlock)
  else
    let w := { w with
      credits := Function.update w.credits half.flow (w.credits half.flow - 1) }
    match w.assignSendSeq half.place with
    | none => (w, .error .brokenPipe)
    | some (w, seq) =>
      match w.sendFrom half.place (.data seq buf) half.conn half.side with
      | none => (w, .error .unreachable)
      | some w => (w, .ok buf.length)

/-- `WriteHalf::poll_writable`; nothing is `Pending`. -/
def pollWritable (w : World) (half : WriteHalf) : Option (Except SendError Unit) :=
  if half.isShutdown then some (.error .brokenPipe)
  else if w.streamState half.place = .reset then some (.error .brokenPipe)
  else if w.credits half.flow > 0 then some (.ok ())
  else none

/-- The part of `poll_ready` about reading, for the `i`-th read half. -/
def pollReadable (w : World) (i : Nat) (half : ReadHalf) : World × Except ReadyError Ready :=
  if w.streamState half.place ≠ .open then
    (w, .ok { Ready.empty with readable := true, readClosed := true })
  else
    match ((w.readerOf half).pollFill (w.held half) (w.streamState half.place)).2 with
    | .pending => (w.read i .pollReadReady, .ok Ready.empty)
    | .ready () => (w.read i .pollReadReady, .ok { Ready.empty with readable := true })
    | .failed _ => (w.read i .pollReadReady, .error .connectionReset)

/-- `TcpStream::poll_ready` of the stream with these halves; nothing is `Pending`. -/
def pollReady (w : World) (i : Nat) (r : ReadHalf) (half : WriteHalf) (interest : Interest) :
    World × Option (Except ReadyError Ready) :=
  if interest.other || !(interest.readable || interest.writable) then
    (w, some (.error .invalidInput))
  else
    match (if interest.readable then w.pollReadable i r else (w, .ok Ready.empty)) with
    | (w, .error e) => (w, some (.error e))
    | (w, .ok ready) =>
      let ready :=
        if interest.writable then
          match w.pollWritable half with
          | some (.ok ()) => { ready with writable := true }
          | some (.error _) => { ready with writeClosed := true }
          | none => ready
        else ready
      (w, if ready = Ready.empty then none else some (.ok ready))

/-- The write of the runs is this one. -/
theorem tryWriteOn_fst {w : World} {i : Nat} {half : WriteHalf} (hi : w.writers[i]? = some half)
    (buf : Bytes) : (w.tryWriteOn half buf).1 = w.tryWrite i buf := by
  simp only [tryWriteOn, World.tryWrite, hi]
  by_cases hrefused : half.isShutdown || buf.isEmpty || w.streamState half.place == .reset
      || w.credits half.flow == 0
  · rw [if_pos hrefused]
    simp only [Bool.or_eq_true, beq_iff_eq] at hrefused
    split
    · rfl
    · split
      · rfl
      · split
        · rfl
        · split
          · rfl
          · simp_all
  · rw [if_neg hrefused]
    simp only [Bool.or_eq_true, beq_iff_eq, not_or] at hrefused
    obtain ⟨⟨⟨hopen, hbuf⟩, hstate⟩, hcredits⟩ := hrefused
    rw [if_neg hopen, if_neg hbuf, if_neg hstate, if_neg hcredits]
    generalize World.mk _ _ _ _ _ _ _ _ _ _ _ = w₁
    cases w₁.assignSendSeq half.place with
    | none => rfl
    | some r =>
      obtain ⟨w₂, seq⟩ := r
      dsimp only
      cases w₂.sendFrom half.place (.data seq buf) half.conn half.side <;> rfl

end World

/-! ## 2. Reads -/

namespace Reader

variable {r r' : Reader} {held : Bool} {state : StreamState}

/-- Every segment has bytes. -/
structure Filled (r : Reader) : Prop where
  stash : r.rx.buffer ≠ some []
  queue : ∀ b ∈ r.channel.queue, b ≠ []

/-- A call releases a credit for each segment it takes out of the channel. -/
structure Releases (r r' : Reader) : Prop where
  credit : r'.credits + r'.channel.queue.length = r.credits + r.channel.queue.length
  filled : r.Filled → r'.Filled

theorem Releases.refl (r : Reader) : Releases r r := ⟨rfl, id⟩

theorem Releases.trans {r'' : Reader} (h : Releases r r') (h' : Releases r' r'') :
    Releases r r'' := ⟨h'.credit.trans h.credit, fun hr => h'.filled (h.filled hr)⟩

theorem Releases.stash (h : Releases r r') (rest : Bytes) : Releases r (r'.stash rest) :=
  ⟨h.credit, fun hr => ⟨stash_ne _ _, (h.filled hr).queue⟩⟩

/-- A segment is taken out of the channel. -/
theorem Releases.take {bytes : Bytes} (h : r.take = some (r', bytes)) :
    Releases r r' ∧ (r.Filled → bytes ≠ []) := by
  unfold Reader.take at h
  split at h
  · cases h
  · rename_i queue hq
    cases h
    refine ⟨⟨?_, fun hr => ⟨hr.stash, fun b hb => hr.queue b (by simp [hq, hb])⟩⟩,
      fun hr => hr.queue bytes (by simp [hq])⟩
    simp only [hq, List.length_cons]
    omega

/-- `poll_fill` keeps the bytes. -/
theorem pollFill_keeps (r : Reader) (held : Bool) (state : StreamState) :
    Releases r (r.pollFill held state).1 ∧ (r.pollFill held state).1.unread = r.unread := by
  unfold pollFill
  split
  · exact ⟨.refl r, rfl⟩
  · rename_i hdone
    split
    · rename_i r₁ bytes htake
      obtain ⟨htaken, hbytes⟩ := Releases.take htake
      refine ⟨⟨htaken.credit, fun hr => ⟨fun hb => hbytes hr (Option.some.inj hb),
        (htaken.filled hr).queue⟩⟩, ?_⟩
      have hnone : r.rx.buffer = none := by
        simpa using (not_or.mp (mt Bool.or_eq_true_iff.mpr hdone)).2
      unfold Reader.take at htake
      split at htake
      · cases htake
      · rename_i queue hq
        cases htake
        simp [unread, hnone, hq]
    · split
      · exact ⟨.refl r, rfl⟩
      · split
        · exact ⟨⟨rfl, fun hr => ⟨hr.stash, hr.queue⟩⟩, rfl⟩
        · exact ⟨.refl r, rfl⟩

theorem pollRead_releases (r : Reader) (held : Bool) (state : StreamState)
    (filled remaining : Nat) : Releases r (r.pollRead held state filled remaining).1 := by
  have hfill := (r.pollFill_keeps held state).1
  unfold pollRead
  split
  · exact .refl r
  · split <;> rename_i heq <;> rw [heq] at hfill
    · split
      · exact ⟨hfill.credit, fun hr => ⟨by simp [putSlice], (hfill.filled hr).queue⟩⟩
      · exact hfill
    · exact hfill
    · exact hfill

theorem pollPeek_releases (r : Reader) (held : Bool) (state : StreamState)
    (filled remaining : Nat) : Releases r (r.pollPeek held state filled remaining).1 := by
  have hfill := (r.pollFill_keeps held state).1
  unfold pollPeek
  split
  · exact .refl r
  · split <;> rename_i heq <;> rw [heq] at hfill
    · split <;> exact hfill
    · exact hfill
    · exact hfill

theorem readLoop_releases : ∀ (fuel : Nat) {r₀ r : Reader} {rooms : List Nat} {out : Bytes},
    Releases r₀ r → Releases r₀ (readLoop held state fuel r rooms out).1
  | 0, _, _, _, _, h => h
  | fuel + 1, r₀, r, rooms, out, h => by
    have hcopy : ∀ {r₁ : Reader} {bytes : Bytes}, Releases r₀ r₁ →
        Releases r₀ (if (copyInto rooms bytes).1.isEmpty then
          (r₁.stash (copyInto rooms bytes).2.1, Except.ok (out ++ (copyInto rooms bytes).2.2))
        else readLoop held state fuel (r₁.stash (copyInto rooms bytes).2.1)
          (copyInto rooms bytes).1 (out ++ (copyInto rooms bytes).2.2)).1 := by
      intro r₁ bytes h₁
      split
      · exact h₁.stash _
      · exact readLoop_releases fuel (h₁.stash _)
    rw [readLoop]
    split
    · exact h
    · dsimp only
      split
      · exact hcopy h
      · split
        · rename_i htake
          exact hcopy (h.trans (Releases.take htake).1)
        · split
          · exact h
          · split
            · exact h
            · split
              · exact ⟨h.credit, fun hr => ⟨(h.filled hr).stash, (h.filled hr).queue⟩⟩
              · exact h

/-- A read that has copied something returns it. -/
theorem readLoop_ok : ∀ (fuel : Nat) {r : Reader} {rooms : List Nat} {out : Bytes}, out ≠ [] →
    ∃ res, (readLoop held state fuel r rooms out).2 = .ok res
  | 0, _, _, out, _ => ⟨out, rfl⟩
  | fuel + 1, r, rooms, out, h => by
    have hcopy : ∀ {r₁ : Reader} {bytes : Bytes},
        ∃ res, (if (copyInto rooms bytes).1.isEmpty then
          (r₁.stash (copyInto rooms bytes).2.1, Except.ok (out ++ (copyInto rooms bytes).2.2))
        else readLoop held state fuel (r₁.stash (copyInto rooms bytes).2.1)
          (copyInto rooms bytes).1 (out ++ (copyInto rooms bytes).2.2)).2 = .ok res := by
      intro r₁ bytes
      split
      · exact ⟨_, rfl⟩
      · exact readLoop_ok fuel (by simp [h])
    rw [readLoop]
    split
    · exact ⟨_, rfl⟩
    · dsimp only
      split
      · exact hcopy
      · split
        · exact hcopy
        · rw [if_pos (by simpa using h)]
          exact ⟨_, rfl⟩

/-- **A read would block** exactly where nothing is there and the channel has not ended. -/
theorem wouldBlock_iff (hr : r.Filled) {rooms : List Nat} (hrooms : ∃ room ∈ rooms, 0 < room) :
    (r.tryReadVectored held state rooms).2 = .error .wouldBlock
      ↔ r.rx.isClosed = false ∧ r.rx.buffer = none ∧ r.channel.queue = [] ∧ held = true := by
  have hsum : 0 < rooms.sum := List.sum_pos_iff_exists_pos_nat.mpr hrooms
  have hcopy : ∀ {fuel : Nat} {r₁ : Reader} {bytes : Bytes}, bytes ≠ [] →
      (if (copyInto rooms bytes).1.isEmpty then
        (r₁.stash (copyInto rooms bytes).2.1, Except.ok ([] ++ (copyInto rooms bytes).2.2))
      else readLoop held state fuel (r₁.stash (copyInto rooms bytes).2.1)
        (copyInto rooms bytes).1 ([] ++ (copyInto rooms bytes).2.2)).2
        ≠ .error ReadError.wouldBlock := by
    intro fuel r₁ bytes hbytes
    split
    · simp
    · have hcopied : (copyInto rooms bytes).2.2 ≠ [] := by
        rw [(copyInto_spec rooms bytes).1, Ne, List.take_eq_nil_iff, not_or]
        exact ⟨by omega, hbytes⟩
      intro hblock
      obtain ⟨res, hres⟩ := @readLoop_ok held state fuel (r₁.stash (copyInto rooms bytes).2.1)
        (copyInto rooms bytes).1 ([] ++ (copyInto rooms bytes).2.2) (by simpa using hcopied)
      cases hres.symm.trans hblock
  rw [tryReadVectored, readLoop]
  cases hclosed : r.rx.isClosed with
  | true => simp
  | false =>
    simp only [Bool.false_eq_true, if_false, true_and]
    cases hbuf : r.rx.buffer with
    | some bytes =>
      have hbytes : bytes ≠ [] := fun h => hr.stash (h ▸ hbuf)
      exact iff_of_false (hcopy hbytes) (by simp)
    | none =>
      cases hqueue : r.channel.queue with
      | cons bytes queue =>
        have hbytes : bytes ≠ [] := hr.queue bytes (by simp [hqueue])
        simp only [take, hqueue]
        exact iff_of_false (hcopy hbytes) (by simp)
      | nil =>
        simp only [take, hqueue]
        cases held with
        | true => simp
        | false =>
          by_cases hstate : state = .readClosed <;> simp [hstate]

end Reader

/-! ## 3. No segment is empty -/

theorem bufferLoop_full : ∀ (fuel : Nat) (x : StreamSocket) (ch : Channel),
    (∀ k, x.buf.get? k ≠ some (.data [])) → (∀ b ∈ ch.queue, b ≠ []) →
    (∀ k, (StreamSocket.bufferLoop fuel x ch).1.buf.get? k ≠ some (.data []))
      ∧ ∀ b ∈ (StreamSocket.bufferLoop fuel x ch).2.1.queue, b ≠ []
  | 0, _, _, hbuf, hqueue => ⟨hbuf, hqueue⟩
  | fuel + 1, x, ch, hbuf, hqueue => by
    rw [StreamSocket.bufferLoop]
    cases hget : x.buf.get? (x.recvSeq + 1) with
    | none => exact ⟨hbuf, hqueue⟩
    | some segment =>
      have hremove : ∀ k, (x.buf.swapRemove (x.recvSeq + 1)).get? k ≠ some (.data []) := by
        intro k
        rw [IndexMap.get?_swapRemove]
        split
        · simp
        · exact hbuf k
      dsimp only
      split
      · exact ⟨hremove, hqueue⟩
      · cases segment with
        | fin =>
          dsimp only
          split
          · exact ⟨hremove, hqueue⟩
          · exact bufferLoop_full fuel _ ch hremove hqueue
        | data bytes =>
          have hbytes : bytes ≠ [] := by
            rintro rfl
            exact hbuf _ hget
          dsimp only
          split
          · rename_i ch' hsend
            refine bufferLoop_full fuel _ ch' hremove ?_
            unfold Channel.trySend at hsend
            split at hsend
            · cases hsend
            · split at hsend <;> cases hsend
              intro b hb
              rcases List.mem_append.mp hb with hb | hb
              · exact hqueue b hb
              · rw [List.mem_singleton.mp hb]
                exact hbytes
          · exact ⟨hremove, hqueue⟩
          · refine ⟨fun k => ?_, hqueue⟩
            rw [IndexMap.get?_insert]
            split
            · simpa using hbytes
            · exact hremove k

namespace World

/-- No segment without bytes is anywhere. -/
structure NoEmpty (w : World) : Prop where
  net : ∀ e ∈ w.net, ∀ seq, e.segment ≠ .data seq []
  bufs : ∀ p slot, w.sockets.get? p = some slot → ∀ k, slot.socket.buf.get? k ≠ some (.data [])
  queues : ∀ n, ∀ b ∈ (w.channels n).queue, b ≠ []
  stashes : ∀ half ∈ w.readers, half.rx.buffer ≠ some []

namespace NoEmpty

variable {w w' : World} {p : Place}

theorem filled (h : w.NoEmpty) {half : ReadHalf} (hhalf : half ∈ w.readers) :
    (w.readerOf half).Filled := ⟨h.stashes half hhalf, h.queues half.stream⟩

theorem insert (h : w.NoEmpty) {slot : Slot}
    (hslot : ∀ k, slot.socket.buf.get? k ≠ some (.data [])) :
    NoEmpty { w with sockets := w.sockets.insert p slot } where
  net := h.net
  bufs q slot' hs := by
    rw [IndexMap.get?_insert] at hs
    split at hs
    · cases hs
      exact hslot
    · exact h.bufs q slot' hs
  queues := h.queues
  stashes := h.stashes

theorem reset (h : w.NoEmpty) (p : Place) : (w.resetStream p).NoEmpty where
  net := h.net
  bufs q slot hs := by
    rw [resetStream, IndexMap.get?_swapRemove] at hs
    split at hs
    · cases hs
    · exact h.bufs q slot hs
  queues := h.queues
  stashes := h.stashes

theorem send (h : w.NoEmpty) {host : IpAddr} {src dst : SocketAddr} {segment : Segment} {c : Conn}
    {s : Side} (hseg : ∀ seq, segment ≠ .data seq []) :
    ((w.send host src dst segment c s).getD w).NoEmpty := by
  unfold World.send
  split
  · refine ⟨fun e he => ?_, h.bufs, h.queues, h.stashes⟩
    rcases List.mem_append.mp he with he | he
    · exact h.net e he
    · rw [List.mem_singleton.mp he]
      exact hseg
  · exact h

theorem sendFrom (h : w.NoEmpty) {segment : Segment} {c : Conn} {s : Side}
    (hseg : ∀ seq, segment ≠ .data seq []) (hsend : w.sendFrom p segment c s = some w') :
    w'.NoEmpty := by
  have hsent : ((w.send p.1 p.2.loc p.2.rem segment c s).getD w).NoEmpty := h.send hseg
  rw [← World.sendFrom, hsend] at hsent
  exact hsent

theorem assignSendSeq (h : w.NoEmpty) {seq : Nat} (hseq : w.assignSendSeq p = some (w', seq)) :
    w'.NoEmpty := by
  obtain ⟨slot, hs, heq⟩ := Option.map_eq_some_iff.mp hseq
  cases heq
  exact h.insert (h.bufs p slot hs)

theorem closeStreamHalf (h : w.NoEmpty) (p : Place) : (w.closeStreamHalf p).NoEmpty := by
  unfold World.closeStreamHalf
  split
  · exact h
  · rename_i slot hs
    dsimp only
    split
    · exact h.reset p
    · exact h.insert (h.bufs p slot hs)

theorem dropReceiver (h : w.NoEmpty) (n : Nat) : (w.dropReceiver n).NoEmpty where
  net := h.net
  bufs := h.bufs
  queues m b hb := by
    by_cases hm : m = n
    · subst hm
      exact h.queues m b (by simpa [World.dropReceiver] using hb)
    · exact h.queues m b (by simpa [World.dropReceiver, hm] using hb)
  stashes := h.stashes

theorem newStream (h : w.NoEmpty) {c : Conn} {s : Side} (hnew : w.newStream p c s = .ok w') :
    w'.NoEmpty := by
  unfold World.newStream at hnew
  split at hnew
  · cases hnew
  · cases hnew
    refine ⟨h.net, fun q slot hs => ?_, fun n b hb => ?_, h.stashes⟩
    · rw [IndexMap.get?_insert] at hs
      split at hs
      · cases hs
        simp [StreamSocket.new]
      · exact h.bufs q slot hs
    · by_cases hn : n = w.next
      · simp [hn, Channel.new] at hb
      · exact h.queues n b (by simpa [hn] using hb)

theorem openHalves (h : w.NoEmpty) (p : Place) (stream : Nat) (write read : FlowId) (c : Conn)
    (s : Side) : (w.openHalves p stream write read c s).NoEmpty where
  net := h.net
  bufs := h.bufs
  queues := h.queues
  stashes half hhalf := by
    rcases List.mem_append.mp hhalf with hhalf | hhalf
    · exact h.stashes half hhalf
    · rw [List.mem_singleton.mp hhalf]
      simp [Rx.new]

theorem buffer (h : w.NoEmpty) {seq : Nat} {segment : SequencedSegment} {rst : Bool}
    (hseg : segment ≠ .data []) (hbuf : w.buffer p seq segment = .ok (w', rst)) : w'.NoEmpty := by
  unfold World.buffer at hbuf
  split at hbuf
  · cases hbuf
    exact h
  · rename_i slot hs
    split at hbuf
    · cases hbuf
    · rename_i socket channel outcome hsocket
      cases hbuf
      unfold StreamSocket.buffer at hsocket
      split at hsocket
      · cases hsocket
      · have hinsert : ∀ k, (slot.socket.buf.insert seq segment).get? k ≠ some (.data []) := by
          intro k
          rw [IndexMap.get?_insert]
          split
          · simpa using hseg
          · exact h.bufs p slot hs k
        have hloop := bufferLoop_full
          ({ slot.socket with buf := slot.socket.buf.insert seq segment } :
            StreamSocket).buf.keys.length
          { slot.socket with buf := slot.socket.buf.insert seq segment } (w.channels slot.stream)
          hinsert (h.queues slot.stream)
        rw [Option.some.inj hsocket] at hloop
        have hput : NoEmpty
            { w with sockets := w.sockets.insert p { slot with socket := socket } } :=
          h.insert hloop.1
        refine ⟨hput.net, hput.bufs, fun n b hb => ?_, hput.stashes⟩
        by_cases hn : n = slot.stream
        · exact hloop.2 b (by simpa [hn] using hb)
        · exact h.queues n b (by simpa [hn] using hb)

theorem receive (h : w.NoEmpty) {e : Envelope} {rst : Bool}
    (he : ∀ seq, e.segment ≠ .data seq []) (hrec : w.receive e = .ok (w', rst)) : w'.NoEmpty := by
  unfold World.receive at hrec
  cases hseg : e.segment with
  | syn =>
    rw [hseg] at hrec
    dsimp only at hrec
    split at hrec
    · cases hrec
      exact h
    · split at hrec
      · cases hrec
      · split at hrec <;> cases hrec <;> exact ⟨h.net, h.bufs, h.queues, h.stashes⟩
  | data seq bytes =>
    rw [hseg] at hrec
    exact h.buffer (fun hb => he seq (by rw [hseg, SequencedSegment.data.inj hb])) hrec
  | fin seq =>
    rw [hseg] at hrec
    have hfin : SequencedSegment.fin ≠ .data [] := nofun
    exact h.buffer hfin hrec
  | rst =>
    rw [hseg] at hrec
    cases hrec
    exact h.reset _

theorem eraseNet (h : w.NoEmpty) (i : Nat) : NoEmpty { w with net := w.net.eraseIdx i } :=
  ⟨fun e he => h.net e (List.mem_of_mem_eraseIdx he), h.bufs, h.queues, h.stashes⟩

theorem eraseReader (h : w.NoEmpty) (i : Nat) :
    NoEmpty { w with readers := w.readers.eraseIdx i } :=
  ⟨h.net, h.bufs, h.queues, fun half hhalf => h.stashes half (List.mem_of_mem_eraseIdx hhalf)⟩

theorem deliver (h : w.NoEmpty) {i : Nat} (hdel : w.deliver i = .ok w') : w'.NoEmpty := by
  unfold World.deliver at hdel
  cases he : w.net[i]? with
  | none =>
    rw [he] at hdel
    cases hdel
    exact h
  | some e =>
    rw [he] at hdel
    obtain ⟨⟨w₁, rst⟩, hrec, hdel⟩ := Net.bind_eq_ok.mp hdel
    have h₁ := (h.eraseNet i).receive (h.net e (List.mem_of_getElem? he)) hrec
    dsimp only at hdel
    split at hdel
    · cases hdel
      exact h₁
    · split at hdel
      · cases hdel
        exact h₁.reset _
      · cases hdel
        exact h₁.send nofun

end NoEmpty

/-- The reads release a credit for each segment they take. -/
theorem perform_releases (call : ReadCall) (r : Reader) (held : Bool) (state : StreamState) :
    Reader.Releases r (call.perform r held state) := by
  cases call with
  | pollRead filled remaining => exact r.pollRead_releases held state filled remaining
  | tryReadVectored bufs => exact Reader.readLoop_releases _ (.refl r)
  | pollPeek filled remaining => exact r.pollPeek_releases held state filled remaining
  | pollReadReady => exact (r.pollFill_keeps held state).1

namespace NoEmpty

variable {w w' : World} {p : Place}

theorem read (h : w.NoEmpty) (i : Nat) (call : ReadCall) : (w.read i call).NoEmpty := by
  unfold World.read
  cases hi : w.readers[i]? with
  | none => exact h
  | some half =>
    have hfilled : (call.perform ⟨half.rx, w.channels half.stream, w.credits half.flow⟩
        (w.held half) (w.streamState half.place)).Filled :=
      (perform_releases call _ _ _).filled (h.filled (List.mem_of_getElem? hi))
    refine ⟨h.net, h.bufs, fun n b hb => ?_, fun half' hhalf => ?_⟩
    · by_cases hn : n = half.stream
      · exact hfilled.queue b (by simpa [hn] using hb)
      · exact h.queues n b (by simpa [hn] using hb)
    · rcases List.mem_or_eq_of_mem_set hhalf with hold | rfl
      · exact h.stashes half' hold
      · exact hfilled.stash

theorem connect (h : w.NoEmpty) {host : IpAddr} {dst : SocketAddr}
    (hconnect : w.connect host dst = .ok w') : w'.NoEmpty := by
  rcases connect_cases hconnect with ⟨-, rfl⟩ | ⟨hosts, pair, conn, w₁, -, hnew, hend⟩
  · exact h
  · have h₀ : NoEmpty { w with hosts := hosts } := ⟨h.net, h.bufs, h.queues, h.stashes⟩
    have h₁ := h₀.newStream hnew
    rcases hend with rfl | ⟨w₂, hsend, rfl⟩
    · exact h₁.dropReceiver _
    · have hsyn : ∀ seq, Segment.syn ≠ .data seq [] := nofun
      have h₂ := h₁.sendFrom hsyn hsend
      exact ⟨h₂.net, h₂.bufs, h₂.queues, h₂.stashes⟩

theorem accept (h : w.NoEmpty) {host : IpAddr} {port : UInt16}
    (haccept : w.accept host port = .ok w') : w'.NoEmpty := by
  rcases accept_cases haccept with
    ⟨binds, rfl⟩ | ⟨binds, connecting, w₁, pair, _, _, _, _, hnew, rfl⟩
  · exact ⟨h.net, h.bufs, h.queues, h.stashes⟩
  · have h₀ : NoEmpty { w with binds := binds, connecting := connecting } :=
      ⟨h.net, h.bufs, h.queues, h.stashes⟩
    exact (h₀.newStream hnew).openHalves _ _ _ _ _ _

theorem tryWrite (h : w.NoEmpty) (i : Nat) (buf : Bytes) : (w.tryWrite i buf).NoEmpty := by
  unfold World.tryWrite
  split
  · exact h
  · rename_i half _
    split
    · exact h
    · rename_i hsend
      have hdata : ∀ n seq, Segment.data n buf ≠ .data seq [] := by
        rintro n seq ⟨⟩
        simp at hsend
      have h₀ : NoEmpty { w with
          credits := Function.update w.credits half.flow (w.credits half.flow - 1) } :=
        ⟨h.net, h.bufs, h.queues, h.stashes⟩
      dsimp only
      split
      · exact h₀
      · rename_i hseq
        exact (h₀.assignSendSeq hseq).send (hdata _)

theorem fin_ne (n : Nat) : ∀ seq, Segment.fin n ≠ .data seq [] := nofun

theorem pollShutdown (h : w.NoEmpty) (i : Nat) : (w.pollShutdown i).NoEmpty := by
  unfold World.pollShutdown
  split
  · exact h
  · split
    · exact h
    · split
      · exact h
      · rename_i hseq
        have h₁ := h.assignSendSeq hseq
        split
        · exact h₁
        · rename_i hsend
          have h₂ := h₁.sendFrom (fin_ne _) hsend
          exact ⟨h₂.net, h₂.bufs, h₂.queues, h₂.stashes⟩

theorem dropWriteHalf (h : w.NoEmpty) (i : Nat) : (w.dropWriteHalf i).NoEmpty := by
  unfold World.dropWriteHalf
  split
  · exact h
  · refine closeStreamHalf ?_ _
    have h₀ : NoEmpty { w with writers := w.writers.eraseIdx i } :=
      ⟨h.net, h.bufs, h.queues, h.stashes⟩
    split
    · exact h₀
    · split
      · exact h₀
      · rename_i hseq
        exact (h₀.assignSendSeq hseq).send (fin_ne _)

theorem dropReadHalf (h : w.NoEmpty) (i : Nat) : (w.dropReadHalf i).NoEmpty := by
  unfold World.dropReadHalf
  split
  · exact h
  · rename_i half _
    have h₁ := (h.eraseReader i).dropReceiver half.stream
    dsimp only
    split
    · have hrst : ∀ seq, Segment.rst ≠ .data seq [] := nofun
      exact (h₁.send hrst).reset _
    · exact h₁.closeStreamHalf _

/-- **One step** sends no segment without bytes. -/
theorem step (h : w.NoEmpty) {op : Op} (hstep : w.step op = .ok w') : w'.NoEmpty := by
  cases op with
  | bind host addr =>
    obtain ⟨hosts, binds, rfl⟩ := bind_cases hstep
    exact ⟨h.net, h.bufs, h.queues, h.stashes⟩
  | accept host port => exact h.accept hstep
  | connect host dst => exact h.connect hstep
  | deliver i => exact h.deliver hstep
  | read i call =>
    cases hstep
    exact h.read i call
  | connected i =>
    cases hstep
    unfold World.connected
    split
    · exact h
    · split
      · exact openHalves (w := { w with connecting := w.connecting.eraseIdx i })
          ⟨h.net, h.bufs, h.queues, h.stashes⟩ _ _ _ _ _ _
      · exact h
  | cancel i =>
    cases hstep
    unfold World.cancel
    split
    · exact h
    · exact dropReceiver (w := { w with connecting := w.connecting.eraseIdx i })
        ⟨h.net, h.bufs, h.queues, h.stashes⟩ _
  | tryWrite i buf =>
    cases hstep
    exact h.tryWrite i buf
  | pollShutdown i =>
    cases hstep
    exact h.pollShutdown i
  | dropWriteHalf i =>
    cases hstep
    exact h.dropWriteHalf i
  | dropReadHalf i =>
    cases hstep
    exact h.dropReadHalf i
  | unbind host port =>
    cases hstep
    exact ⟨h.net, h.bufs, h.queues, h.stashes⟩
  | setUdp host udp =>
    cases hstep
    exact ⟨h.net, h.bufs, h.queues, h.stashes⟩
  | lose i =>
    cases hstep
    exact h.eraseNet i

theorem new (addrs : List IpAddr) (first last : UInt16) (capacity : Nat) :
    (World.new addrs first last capacity).NoEmpty := by
  refine ⟨?_, ?_, ?_, ?_⟩ <;> simp [World.new, Channel.new]

theorem run : ∀ {ops : List Op} {w : World}, w.NoEmpty → w.run ops = .ok w' → w'.NoEmpty
  | [], w, h, hrun => by
    cases hrun
    exact h
  | op :: ops, w, h, hrun => by
    obtain ⟨w₁, hstep, hrun⟩ := Net.bind_eq_ok.mp hrun
    exact run (h.step hstep) hrun

end NoEmpty

/-! ## 4. Readiness -/

/-- Is `READABLE` among what a poll reports? -/
def reportsReadable (poll : Option (Except ReadyError Ready)) : Bool :=
  match poll with
  | some (.ok ready) => ready.readable
  | _ => false

/-- The link over which a half sends is registered. -/
def linked (w : World) (place : Place) : Bool :=
  isSame place.2.loc place.2.rem || w.hosts.contains place.2.rem.ip

/-- **Readiness agrees with the operations** of the stream with these halves. -/
structure ReadinessAgrees (w : World) (i : Nat) (r : ReadHalf) (half : WriteHalf) : Prop where
  /-- `READABLE` is reported exactly if a read would not block. -/
  readable : ∀ (interest : Interest) (bufs : List Nat), interest.readable = true →
    interest.other = false → (∃ room ∈ bufs, 0 < room) →
    (reportsReadable (w.pollReady i r half interest).2 = true ↔
      ((w.readerOf r).tryReadVectored (w.held r) (w.streamState r.place) bufs).2
        ≠ .error .wouldBlock)
  /-- A poll keeps the bytes. -/
  keeps : ∀ interest, ∃ r', (w.pollReady i r half interest).1.readers[i]? = some r'
    ∧ ((w.pollReady i r half interest).1.readerOf r').unread = (w.readerOf r).unread
  /-- Each read, and so each poll, releases a credit for each segment it takes. -/
  releases : ∀ call, ∃ r', (w.read i call).readers[i]? = some r'
    ∧ Reader.Releases (w.readerOf r) ((w.read i call).readerOf r')
  /-- A poll for writing answers what a write would. -/
  writable : w.linked half.place = true → ∀ buf ≠ [],
    (w.pollWritable half = some (.ok ()) ↔ (w.tryWriteOn half buf).2 = .ok buf.length)
      ∧ (w.pollWritable half = some (.error .brokenPipe)
        ↔ (w.tryWriteOn half buf).2 = .error .brokenPipe)
      ∧ (w.pollWritable half = none ↔ (w.tryWriteOn half buf).2 = .error .wouldBlock)

/-- The half has read everything, the sender of its channel is gone, and yet there is an open entry
under its pair: the one of a later connection. -/
def Outlived (w : World) (r : ReadHalf) : Prop :=
  w.streamState r.place = .open ∧ w.held r = false ∧ r.rx = Rx.new
    ∧ (w.channels r.stream).queue = []

variable {w : World} {i : Nat} {r : ReadHalf} {half : WriteHalf}

theorem read_readers (hi : w.readers[i]? = some r) (call : ReadCall) :
    ∃ r', (w.read i call).readers[i]? = some r' ∧ (w.read i call).readerOf r'
      = call.perform (w.readerOf r) (w.held r) (w.streamState r.place) := by
  simp only [World.read, hi]
  have hlt : i < w.readers.length := (List.getElem?_eq_some_iff.mp hi).1
  exact ⟨_, List.getElem?_set_self hlt, by simp [readerOf]⟩

theorem open_of_held (h : w.held r = true) : w.streamState r.place = .open := by
  unfold held at h
  unfold streamState
  split at h
  · rename_i slot hs
    simp only [Bool.and_eq_true] at h
    simp [StreamSocket.state, h.2]
  · cases h

/-- The part about writing adds no `READABLE`, and takes none away. -/
theorem reportsReadable_pollReady {interest : Interest} (hread : interest.readable = true)
    (hother : interest.other = false) : reportsReadable (w.pollReady i r half interest).2
      = match (w.pollReadable i r).2 with
        | .ok ready => ready.readable
        | .error _ => false := by
  simp only [pollReady, hread, hother, Bool.true_or, Bool.not_true, Bool.or_self,
    Bool.false_eq_true, if_false, if_true]
  cases w.pollReadable i r with
  | mk w' res =>
    cases res with
    | error e => rfl
    | ok ready =>
      dsimp only
      have hreported : ∀ ready' : Ready, ready'.readable = ready.readable →
          reportsReadable (if ready' = Ready.empty then none else some (.ok ready'))
            = ready.readable := by
        intro ready' hsame
        split
        · rename_i hempty
          rw [← hsame, hempty]
          rfl
        · exact hsame
      split
      · split <;> exact hreported _ rfl
      · exact hreported _ rfl

theorem pollReadable_readable : (match (w.pollReadable i r).2 with
      | .ok ready => ready.readable
      | .error _ => false) = true ↔ w.streamState r.place ≠ .open
        ∨ ((w.readerOf r).pollFill (w.held r) .open).2 = .ready () := by
  unfold pollReadable
  by_cases hstate : w.streamState r.place = .open
  · simp only [hstate, ne_eq, not_true_eq_false, if_false, false_or]
    cases ((w.readerOf r).pollFill (w.held r) .open).2 <;> simp [Ready.empty]
  · simp [hstate]

theorem pollFill_ready_iff {r : Reader} {held : Bool} : (r.pollFill held .open).2 = .ready ()
    ↔ r.rx.isClosed = true ∨ r.rx.buffer ≠ none ∨ r.channel.queue ≠ [] := by
  unfold Reader.pollFill Reader.take
  cases r.rx.isClosed <;> cases r.rx.buffer <;> cases r.channel.queue <;> cases held <;> simp

theorem Rx.eq_new_iff {rx : Rx} : rx = Rx.new ↔ rx.isClosed = false ∧ rx.buffer = none := by
  obtain ⟨buffer, closed⟩ := rx
  simp [Rx.new, and_comm]

/-- **`READABLE` is reported** where a read would not block, unless the half is outlived. -/
theorem readable_iff (hw : w.NoEmpty) (hi : w.readers[i]? = some r) {interest : Interest}
    {bufs : List Nat} (hread : interest.readable = true) (hother : interest.other = false)
    (hbufs : ∃ room ∈ bufs, 0 < room) :
    (reportsReadable (w.pollReady i r half interest).2 = true ↔
      ((w.readerOf r).tryReadVectored (w.held r) (w.streamState r.place) bufs).2
        ≠ .error .wouldBlock) ↔ ¬ w.Outlived r := by
  have hfilled := hw.filled (List.mem_of_getElem? hi)
  have hopen := open_of_held (w := w) (r := r)
  rw [reportsReadable_pollReady hread hother, pollReadable_readable, pollFill_ready_iff]
  simp only [ne_eq]
  rw [Reader.wouldBlock_iff hfilled hbufs, Outlived, Rx.eq_new_iff]
  simp only [readerOf]
  cases hheld : w.held r with
  | true =>
    have hstate := hopen hheld
    simp only [hstate]
    cases r.rx.isClosed <;> simp
    tauto
  | false =>
    cases r.rx.isClosed <;> simp
    tauto

/-- A poll leaves the state alone, or fills the stash. -/
theorem pollReady_fst (w : World) (i : Nat) (r : ReadHalf) (half : WriteHalf)
    (interest : Interest) : (w.pollReady i r half interest).1 = w
      ∨ (w.pollReady i r half interest).1 = w.read i .pollReadReady := by
  have hread : (w.pollReadable i r).1 = w ∨ (w.pollReadable i r).1 = w.read i .pollReadReady := by
    unfold pollReadable
    split
    · exact .inl rfl
    · split <;> exact .inr rfl
  unfold pollReady
  split
  · exact .inl rfl
  · cases interest.readable with
    | false => exact .inl rfl
    | true =>
      rw [if_pos rfl]
      cases hpoll : w.pollReadable i r with
      | mk w' res =>
        rw [hpoll] at hread
        cases res <;> exact hread

theorem keeps_unread (hi : w.readers[i]? = some r) (interest : Interest) :
    ∃ r', (w.pollReady i r half interest).1.readers[i]? = some r'
      ∧ ((w.pollReady i r half interest).1.readerOf r').unread = (w.readerOf r).unread := by
  rcases pollReady_fst w i r half interest with h | h
  · rw [h]
    exact ⟨r, hi, rfl⟩
  · rw [h]
    obtain ⟨r', hr', heq⟩ := read_readers hi .pollReadReady
    refine ⟨r', hr', ?_⟩
    rw [heq]
    exact ((w.readerOf r).pollFill_keeps _ _).2

/-- A socket that is not reset numbers the next segment. -/
theorem assignSendSeq_of_open {p : Place} (h : w.streamState p ≠ .reset) :
    ∃ w' seq, w.assignSendSeq p = some (w', seq) ∧ w'.hosts = w.hosts := by
  unfold streamState at h
  unfold assignSendSeq
  cases hs : w.sockets.get? p with
  | none => simp [hs] at h
  | some slot => exact ⟨_, _, rfl, rfl⟩

/-- **A poll for writing** answers what a write would. -/
theorem writable_iff (hlink : w.linked half.place = true) {buf : Bytes} (hbuf : buf ≠ []) :
    (w.pollWritable half = some (.ok ()) ↔ (w.tryWriteOn half buf).2 = .ok buf.length)
      ∧ (w.pollWritable half = some (.error .brokenPipe)
        ↔ (w.tryWriteOn half buf).2 = .error .brokenPipe)
      ∧ (w.pollWritable half = none ↔ (w.tryWriteOn half buf).2 = .error .wouldBlock) := by
  have hempty : ¬ buf.isEmpty = true := by simpa using hbuf
  unfold pollWritable tryWriteOn
  rw [if_neg hempty]
  by_cases hshut : half.isShutdown = true
  · simp [hshut]
  by_cases hstate : w.streamState half.place = .reset
  · simp [hshut, hstate]
  by_cases hcredits : w.credits half.flow = 0
  · simp [hshut, hstate, hcredits]
  have hpos : w.credits half.flow > 0 := by omega
  obtain ⟨w₁, seq, hseq, hhosts⟩ := assignSendSeq_of_open (w := { w with
    credits := Function.update w.credits half.flow (w.credits half.flow - 1) }) hstate
  obtain ⟨w₂, hsend⟩ : ∃ w₂, w₁.sendFrom half.place (.data seq buf) half.conn half.side
      = some w₂ := by
    rw [linked] at hlink
    rw [sendFrom, World.send, hhosts, if_pos hlink]
    exact ⟨_, rfl⟩
  simp [hshut, hstate, hcredits, hpos, hseq, hsend]

/-- **Readiness agrees with the operations** in every state of every run, for every read half that
has not outlived its connection, and for no other. -/
theorem readiness_agrees_iff (addrs : List IpAddr) (first last : UInt16) (capacity : Nat)
    (ops : List Op) (w : World) (i : Nat) (r : ReadHalf) (half : WriteHalf)
    (hrun : (World.new addrs first last capacity).run ops = .ok w)
    (hi : w.readers[i]? = some r) : w.ReadinessAgrees i r half ↔ ¬ w.Outlived r := by
  have hw := (NoEmpty.new addrs first last capacity).run hrun
  constructor
  · intro h
    exact (readable_iff hw hi rfl rfl ⟨1, by simp, Nat.one_pos⟩).mp
      (h.readable ⟨true, false, false⟩ [1] rfl rfl ⟨1, by simp, Nat.one_pos⟩)
  · intro h
    refine ⟨fun interest bufs hread hother hbufs => (readable_iff hw hi hread hother hbufs).mpr h,
      keeps_unread hi, fun call => ?_, fun hlink buf hbuf => writable_iff hlink hbuf⟩
    obtain ⟨r', hr', heq⟩ := read_readers hi call
    exact ⟨r', hr', heq ▸ perform_releases call _ _ _⟩

/-- A server that has a segment to read. -/
theorem readiness_agrees_iff_hello : ∃ (w : World) (r : ReadHalf) (half : WriteHalf),
    w.readers[0]? = some r ∧ w.writers[0]? = some half ∧ w.ReadinessAgrees 0 r half := by
  have hrun : ((World.new [.v4 0xC0A80001, .v4 0xC0A80002] 49152 49152 4).run
      helloOps).toOption.map (fun w => (w.readers[0]?.map fun r => (w.channels r.stream).queue,
        w.writers[0]?.isSome)) = some (some [[7]], true) := by decide +kernel
  obtain ⟨w, hw, hend⟩ := Option.map_eq_some_iff.mp hrun
  obtain ⟨hreader, hwriter⟩ := Prod.mk.inj hend
  obtain ⟨r, hr, hqueue⟩ := Option.map_eq_some_iff.mp hreader
  obtain ⟨half, hhalf⟩ := Option.isSome_iff_exists.mp hwriter
  refine ⟨w, r, half, hr, hhalf, (readiness_agrees_iff _ _ _ _ helloOps w 0 r half
    (Net.toOption_eq_some.mp hw) hr).mpr fun h => ?_⟩
  cases hqueue.symm.trans h.2.2.2

/-- **Readiness of a half that has outlived its connection** is not reported but fails, where a read
reports the reset. -/
theorem outlived_half_is_not_ready :
    (∃ (w : World) (r : ReadHalf) (half : WriteHalf), w.readers[0]? = some r
        ∧ (w.pollReady 0 r half ⟨true, false, false⟩).2 = some (.error .connectionReset)
        ∧ ((w.readerOf r).tryReadVectored (w.held r) (w.streamState r.place) [1]).2
          = .error .connectionReset)
      ∧ ¬ ∀ (addrs : List IpAddr) (first last : UInt16) (capacity : Nat) (ops : List Op) (w : World)
          (i : Nat) (r : ReadHalf) (half : WriteHalf),
          (World.new addrs first last capacity).run ops = .ok w → w.readers[i]? = some r →
          w.ReadinessAgrees i r half := by
  have hrun : ((World.new [.v4 0xC0A80001, .v4 0xC0A80002] 49152 49152 4).run
      staleOps).toOption.map (fun w => (w.readers[0]?.map fun r =>
        w.streamState r.place == .open && !w.held r && r.rx == Rx.new
          && (w.channels r.stream).queue.isEmpty, w.writers[0]?.isSome))
      = some (some true, true) := by decide +kernel
  obtain ⟨w, hw, hend⟩ := Option.map_eq_some_iff.mp hrun
  obtain ⟨hreader, hwriter⟩ := Prod.mk.inj hend
  obtain ⟨r, hr, hfields⟩ := Option.map_eq_some_iff.mp hreader
  obtain ⟨half, hhalf⟩ := Option.isSome_iff_exists.mp hwriter
  simp only [Bool.and_eq_true, beq_iff_eq, Bool.not_eq_true', List.isEmpty_iff] at hfields
  obtain ⟨⟨⟨hopen, hheld⟩, hrx⟩, hqueue⟩ := hfields
  refine ⟨⟨w, r, half, hr, ?_, ?_⟩, fun h => ?_⟩
  · simp [pollReady, pollReadable, readerOf, hopen, hheld, hrx, hqueue, Reader.pollFill,
      Reader.take, Rx.new]
  · simp [readerOf, hopen, hheld, hrx, hqueue, Reader.tryReadVectored, Reader.readLoop,
      Reader.take, Rx.new]
  · have hagrees := h _ _ _ _ staleOps w 0 r half (Net.toOption_eq_some.mp hw) hr
    have hfilled := (NoEmpty.new _ _ _ _).run (Net.toOption_eq_some.mp hw)
    exact (readable_iff hfilled hr rfl rfl ⟨1, by simp, Nat.one_pos⟩).mp
      (hagrees.readable ⟨true, false, false⟩ [1] rfl rfl ⟨1, by simp, Nat.one_pos⟩)
      ⟨hopen, hheld, hrx, hqueue⟩

end World

end Turmoil.Stream
