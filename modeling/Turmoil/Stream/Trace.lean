/-
# What a failed connect leaves behind

`TcpStream::connect` claims its port by putting a socket into the table before it sends the SYN.
Where there is no link the call returns the error of `send_message` with `?`, and where the SYN is
dropped it returns an error when the channel of the answer closes.  Neither takes the socket out.
So it stays, and with it the claim on the port, unless something takes it out that has nothing to do
with the call: a RST that comes in for the pair, or a half of an earlier connection on it.

`takesOut` says which socket a step takes out of the table, and `step_table` that a step does no
more to the table than this, or to put in one new stream.  A run then keeps the socket of a connect
exactly if no step of it takes that socket out (`failed_connect_leaves_no_trace_iff`).
-/
import Turmoil.Stream.Incarnation

namespace Turmoil.Stream

open Turmoil.Net (IpAddr SocketAddr)

namespace World

/-! ## 1. The table -/

/-- The stream whose socket is at a place. -/
def streamAt (w : World) (p : Place) : Option Nat := (w.sockets.get? p).map (·.stream)

/-- Is the socket at a place kept up by one half only? -/
def lastHalf (w : World) (p : Place) : Bool :=
  match w.sockets.get? p with
  | some slot => slot.socket.refCt - 1 == 0
  | none => false

/-- Is there anything in a read half that was not read? -/
def unread (w : World) (half : ReadHalf) : Bool :=
  !half.rx.isClosed && (half.rx.buffer.isSome || !(w.channels half.stream).queue.isEmpty
    || w.hasBufferedData half.place)

/-- Does a RST go back for a segment? -/
def refuses (w : World) (e : Envelope) : Bool :=
  match w.receive e with
  | .ok (_, rst) => rst
  | .error _ => false

/-- The place whose socket a step takes out of the table. -/
def takesOut (w : World) : Op → Option Place
  | .dropWriteHalf i => w.writers[i]?.bind fun half =>
    if w.lastHalf half.place then some half.place else none
  | .dropReadHalf i => w.readers[i]?.bind fun half =>
    if w.unread half || w.lastHalf half.place then some half.place else none
  | .deliver i => w.net[i]?.bind fun e =>
    if e.segment = .rst then some (e.host, ⟨e.dst, e.src⟩)
    else if { w with net := w.net.eraseIdx i }.refuses e && isSame e.src e.dst then
      some (e.host, ⟨e.src, e.dst⟩)
    else none
  | _ => none

variable {w w' w'' : World} {p q : Place} {n : Nat}

/-- What a step does to the table. -/
structure TableStep (out : Option Place) (w w' : World) : Prop where
  next : w.next ≤ w'.next
  gone : ∀ p, out = some p → w'.streamAt p = none
  rest : ∀ p, out ≠ some p → w'.streamAt p = w.streamAt p
    ∨ w.streamAt p = none ∧ w'.streamAt p = some w.next ∧ w.next < w'.next

/-- The same streams at the same places. -/
structure SameTable (w w' : World) : Prop where
  next : w'.next = w.next
  table : ∀ p, w'.streamAt p = w.streamAt p

theorem SameTable.of_eq (hn : w'.next = w.next) (hs : w'.sockets = w.sockets) : SameTable w w' :=
  ⟨hn, fun p => by rw [streamAt, hs]; rfl⟩

theorem SameTable.trans (h : SameTable w w') (h' : SameTable w' w'') : SameTable w w'' :=
  ⟨h'.next.trans h.next, fun p => (h'.table p).trans (h.table p)⟩

theorem SameTable.step (h : SameTable w w') : TableStep none w w' where
  next := Nat.le_of_eq h.next.symm
  gone := nofun
  rest p _ := .inl (h.table p)

theorem TableStep.of_eq (hn : w'.next = w.next) (hs : w'.sockets = w.sockets) :
    TableStep none w w' := (SameTable.of_eq hn hs).step

/-- A socket is put back, changed. -/
theorem SameTable.put {slot : Slot} (hs : w.sockets.get? p = some slot) (socket : StreamSocket) :
    SameTable w { w with sockets := w.sockets.insert p { slot with socket := socket } } where
  next := rfl
  table q := by
    simp only [streamAt, IndexMap.get?_insert]
    split
    · rename_i hq
      rw [hq, hs]
      rfl
    · rfl

theorem SameTable.reset (h : SameTable w w') (p : Place) :
    TableStep (some p) w (w'.resetStream p) where
  next := Nat.le_of_eq h.next.symm
  gone q hq := by
    cases hq
    simp [streamAt, resetStream]
  rest q hq := by
    have hne : q ≠ p := fun hqp => hq (by rw [hqp])
    refine .inl ?_
    rw [← h.table q]
    simp [streamAt, resetStream, hne]

/-- A new stream, where there is none. -/
theorem newStream_table {c : Conn} {s : Side} (h : w.newStream p c s = .ok w') :
    w.streamAt p = none ∧ w'.next = w.next + 1
      ∧ ∀ q, w'.streamAt q = if q = p then some w.next else w.streamAt q := by
  unfold newStream at h
  split at h
  · cases h
  · rename_i hfree
    cases h
    have hnone : w.sockets.get? p = none := by
      simpa [IndexMap.contains] using hfree
    refine ⟨by rw [streamAt, hnone]; rfl, rfl, fun q => ?_⟩
    simp only [streamAt, IndexMap.get?_insert]
    split <;> rfl

/-- A new stream between steps that keep the table. -/
theorem TableStep.of_newStream {w₁ w₂ : World} {c : Conn} {s : Side} (h : SameTable w w₁)
    (hnew : w₁.newStream p c s = .ok w₂) (h' : SameTable w₂ w') : TableStep none w w' := by
  obtain ⟨hnone, hnext, htable⟩ := newStream_table hnew
  have hlt : w.next < w'.next := by
    rw [h'.next, hnext, h.next]
    exact Nat.lt_succ_self _
  refine ⟨Nat.le_of_lt hlt, nofun, fun q _ => ?_⟩
  rw [h'.table, htable, ← h.table q]
  split
  · rename_i hq
    subst hq
    exact .inr ⟨hnone, by rw [h.next], hlt⟩
  · exact .inl rfl

/-! ## 2. The parts of a step -/

theorem send_table (w : World) (h : IpAddr) (src dst : SocketAddr) (segment : Segment) (c : Conn)
    (s : Side) : ((w.send h src dst segment c s).getD w).next = w.next
      ∧ ((w.send h src dst segment c s).getD w).sockets = w.sockets := by
  unfold World.send
  split <;> exact ⟨rfl, rfl⟩

theorem sendFrom_table {segment : Segment} {c : Conn} {s : Side}
    (h : w.sendFrom p segment c s = some w') : w'.next = w.next ∧ w'.sockets = w.sockets := by
  have hsend := send_table w p.1 p.2.loc p.2.rem segment c s
  rw [← sendFrom, h] at hsend
  exact hsend

theorem assignSendSeq_table {seq : Nat} (h : w.assignSendSeq p = some (w', seq)) :
    SameTable w w' ∧ ∀ q, w'.lastHalf q = w.lastHalf q := by
  unfold assignSendSeq at h
  obtain ⟨slot, hs, heq⟩ := Option.map_eq_some_iff.mp h
  cases heq
  refine ⟨.put hs _, fun q => ?_⟩
  simp only [lastHalf, IndexMap.get?_insert]
  by_cases hq : q = p
  · simp [hq, hs]
  · simp [hq]

/-- A half that is closed takes the socket out if it was the last. -/
theorem closeStreamHalf_table (h : SameTable w w') (hlast : w'.lastHalf p = w.lastHalf p) :
    TableStep (if w.lastHalf p then some p else none) w (w'.closeStreamHalf p) := by
  rw [← hlast]
  unfold closeStreamHalf lastHalf
  cases hs : w'.sockets.get? p with
  | none => exact h.step
  | some slot =>
    dsimp only
    by_cases hzero : slot.socket.refCt - 1 = 0
    · simpa [hzero] using h.reset p
    · simpa [hzero] using (h.trans (.put hs _)).step

theorem buffer_table {seq : Nat} {segment : SequencedSegment} {rst : Bool}
    (h : w.buffer p seq segment = .ok (w', rst)) : SameTable w w' := by
  unfold buffer at h
  split at h
  · cases h
    exact .of_eq rfl rfl
  · rename_i slot hs
    split at h
    · cases h
    · rename_i socket channel outcome _
      cases h
      exact (SameTable.put hs socket).trans (.of_eq rfl rfl)

/-- What comes in keeps the table, a RST apart. -/
theorem receive_table {e : Envelope} {rst : Bool} (h : w.receive e = .ok (w', rst)) :
    (e.segment = .rst ∧ rst = false ∧ w' = w.resetStream (e.host, ⟨e.dst, e.src⟩))
      ∨ e.segment ≠ .rst ∧ SameTable w w' := by
  unfold receive at h
  cases hseg : e.segment with
  | syn =>
    refine .inr ⟨nofun, ?_⟩
    rw [hseg] at h
    dsimp only at h
    split at h
    · cases h
      exact .of_eq rfl rfl
    · split at h
      · cases h
      · split at h <;> cases h <;> exact .of_eq rfl rfl
  | data seq bytes =>
    rw [hseg] at h
    exact .inr ⟨nofun, buffer_table h⟩
  | fin seq =>
    rw [hseg] at h
    exact .inr ⟨nofun, buffer_table h⟩
  | rst =>
    rw [hseg] at h
    cases h
    exact .inl ⟨rfl, rfl, rfl⟩

theorem deliver_table {i : Nat} (h : w.deliver i = .ok w') :
    TableStep (w.takesOut (.deliver i)) w w' := by
  unfold deliver at h
  simp only [takesOut]
  cases he : w.net[i]? with
  | none =>
    rw [he] at h
    cases h
    exact .of_eq rfl rfl
  | some e =>
    simp only [he, Option.bind_some] at h ⊢
    cases hrec : World.receive { w with net := w.net.eraseIdx i } e with
    | error err =>
      rw [hrec] at h
      cases h
    | ok r =>
      obtain ⟨w₁, rst⟩ := r
      have hrefuses : World.refuses { w with net := w.net.eraseIdx i } e = rst := by
        rw [refuses, hrec]
      rw [hrec] at h
      dsimp only [Bind.bind, Except.bind] at h
      rcases receive_table hrec with ⟨hseg, rfl, rfl⟩ | ⟨hseg, hsame⟩
      · cases h
        rw [if_pos hseg]
        have hkeep : SameTable w { w with net := w.net.eraseIdx i } := .of_eq rfl rfl
        exact hkeep.reset _
      · have hkeep : SameTable w w₁ := ⟨hsame.next, hsame.table⟩
        rw [if_neg hseg, hrefuses]
        cases rst with
        | false =>
          cases h
          exact hkeep.step
        | true =>
          cases hlocal : isSame e.src e.dst with
          | true =>
            rw [hlocal] at h
            cases h
            exact hkeep.reset _
          | false =>
            rw [hlocal] at h
            cases h
            obtain ⟨hnext, hsockets⟩ := send_table w₁ e.host e.dst e.src .rst e.conn e.side.other
            exact (hkeep.trans (.of_eq hnext hsockets)).step

/-- A `bind` acts on ports and listeners only. -/
theorem bind_cases {host : IpAddr} {addr : SocketAddr} (h : w.bind host addr = .ok w') :
    ∃ hosts binds, w' = { w with hosts := hosts, binds := binds } := by
  unfold World.bind at h
  split at h
  · cases h
    exact ⟨_, _, rfl⟩
  · rename_i ports _
    split at h
    · cases h
      exact ⟨_, _, rfl⟩
    · split at h
      · cases h
      · have hbound : ∀ (hosts : IndexMap IpAddr Ports) {port : UInt16}, (do
            if w.binds.contains (host, port) then pure { w with hosts := hosts }
            else pure { w with
              hosts := hosts, binds := w.binds.insert (host, port) ⟨⟨addr.ip, port⟩, []⟩ })
              = (Except.ok w' : Except Panic World) →
            ∃ hosts binds, w' = { w with hosts := hosts, binds := binds } := by
          intro hosts port hw
          split at hw <;> cases hw <;> exact ⟨_, _, rfl⟩
        dsimp only at h
        split at h
        · rcases assignEphemeralPort_cases w host ports with herr | ⟨hosts, port, hok⟩
          · rw [herr] at h
            cases h
          · rw [hok] at h
            exact hbound hosts h
        · exact hbound w.hosts h

/-- An `accept` finds no SYN to answer, or makes a stream. -/
theorem accept_cases {host : IpAddr} {port : UInt16} (h : w.accept host port = .ok w') :
    (∃ binds, w' = { w with binds := binds })
      ∨ ∃ binds connecting w₁ pair stream write read conn,
        World.newStream { w with binds := binds, connecting := connecting } (host, pair) conn .server
          = .ok w₁ ∧ w' = w₁.openHalves (host, pair) stream write read conn .server := by
  unfold World.accept at h
  split at h
  · cases h
    exact .inl ⟨_, rfl⟩
  · split at h
    · cases h
      exact .inl ⟨_, rfl⟩
    · rename_i conn origin rest _
      dsimp only at h
      split at h
      · cases h
        exact .inl ⟨_, rfl⟩
      · rename_i w₁ hack
        unfold ackSyn at hack
        dsimp only at hack
        split at hack
        · cases hack
          obtain ⟨w₂, hnew, h⟩ := Net.bind_eq_ok.mp h
          generalize (if origin.ip.isLoopback then host else origin.ip) = clientIp at h
          split at h
          · cases h
          · split at h
            · cases h
            · cases h
              exact .inr ⟨_, _, _, _, _, _, _, _, hnew, rfl⟩
        · cases hack

theorem accept_table {host : IpAddr} {port : UInt16} (h : w.accept host port = .ok w') :
    TableStep none w w' := by
  rcases accept_cases h with ⟨binds, rfl⟩ | ⟨binds, connecting, w₁, pair, _, _, _, _, hnew, rfl⟩
  · exact .of_eq rfl rfl
  · have hkeep : SameTable w { w with binds := binds, connecting := connecting } := .of_eq rfl rfl
    exact .of_newStream hkeep hnew (.of_eq rfl rfl)

theorem assignLoop_free {assigned : UInt16 → Bool} {first last port next : UInt16} :
    ∀ {fuel : Nat} {start : UInt16}, assignLoop assigned first last fuel start = some (port, next) →
      assigned port = false
  | 0, _, h => by cases h
  | fuel + 1, start, h => by
    simp only [assignLoop] at h
    split at h
    · exact assignLoop_free h
    · rename_i hfree
      cases h
      exact eq_false_of_ne_true hfree

/-- A port that is found is not in use. -/
theorem assignEphemeralPort_free {host : IpAddr} {ports : Ports} {port : UInt16}
    (h : w.assignEphemeralPort host ports = .ok (w', port)) :
    w.isPortAssigned host port = false := by
  unfold assignEphemeralPort at h
  split at h
  · cases h
  · rename_i hloop
    cases h
    exact (Bool.or_eq_false_iff.mp (assignLoop_free hloop)).2

/-- A `connect` makes a stream on an unused port, and sends its SYN if there is a link. -/
theorem connect_cases {host : IpAddr} {dst : SocketAddr} (h : w.connect host dst = .ok w') :
    (w.hosts.get? host = none ∧ w' = w) ∨ ∃ hosts pair conn w₁,
      w.isPortAssigned host pair.loc.port = false
        ∧ World.newStream { w with hosts := hosts } (host, pair) conn .client = .ok w₁
        ∧ (w' = w₁.dropReceiver w.next ∨ ∃ w₂, w₁.sendFrom (host, pair) .syn conn .client = some w₂
          ∧ w' = { w₂ with
            connecting := w₂.connecting ++ [⟨(host, pair), w.next, false, conn⟩] }) := by
  unfold World.connect at h
  split at h
  · rename_i hhost
    cases h
    exact .inl ⟨hhost, rfl⟩
  · rename_i ports _
    obtain ⟨⟨w₁, pair⟩, hdial, h⟩ := Net.bind_eq_ok.mp h
    obtain ⟨⟨w₁', port⟩, hport, hpair⟩ := Net.bind_eq_ok.mp hdial
    cases hpair
    have hfree := assignEphemeralPort_free hport
    rcases assignEphemeralPort_cases w host ports with herr | ⟨hosts, port', hok⟩
    · cases herr.symm.trans hport
    cases hok.symm.trans hport
    obtain ⟨w₂, hnew, h⟩ := Net.bind_eq_ok.mp h
    split at h
    · cases h
      exact .inr ⟨_, _, _, _, hfree, hnew, .inl rfl⟩
    · rename_i w₃ hsend
      cases h
      exact .inr ⟨_, _, _, _, hfree, hnew, .inr ⟨_, hsend, rfl⟩⟩

/-- **`connect`** puts a new stream on an unused port into the table, whether or not there is a link
to send the SYN over. -/
theorem connect_spec {host : IpAddr} {dst : SocketAddr} (h : w.connect host dst = .ok w') :
    (w.hosts.get? host = none ∧ w' = w) ∨ ∃ pair,
      w.isPortAssigned host pair.loc.port = false ∧ w.streamAt (host, pair) = none
        ∧ w'.next = w.next + 1
        ∧ ∀ q, w'.streamAt q = if q = (host, pair) then some w.next else w.streamAt q := by
  rcases connect_cases h with hno | ⟨hosts, pair, conn, w₁, hfree, hnew, hend⟩
  · exact .inl hno
  · obtain ⟨hnone, hnext, htable⟩ := newStream_table hnew
    rcases hend with rfl | ⟨w₂, hsend, rfl⟩
    · exact .inr ⟨pair, hfree, hnone, hnext, htable⟩
    · obtain ⟨hnext', hsockets⟩ := sendFrom_table hsend
      have hkeep : SameTable w₁ w₂ := .of_eq hnext' hsockets
      exact .inr ⟨pair, hfree, hnone, hkeep.next.trans hnext,
        fun q => (hkeep.table q).trans (htable q)⟩

theorem connect_table {host : IpAddr} {dst : SocketAddr} (h : w.connect host dst = .ok w') :
    TableStep none w w' := by
  rcases connect_spec h with ⟨-, rfl⟩ | ⟨pair, -, hnone, hnext, htable⟩
  · exact .of_eq rfl rfl
  · have hlt : w.next < w'.next := by omega
    refine ⟨Nat.le_of_lt hlt, nofun, fun q _ => ?_⟩
    rw [htable]
    split
    · rename_i hq
      subst hq
      exact .inr ⟨hnone, rfl, hlt⟩
    · exact .inl rfl

theorem tryWrite_table (i : Nat) (buf : Bytes) : SameTable w (w.tryWrite i buf) := by
  unfold World.tryWrite
  split
  · exact .of_eq rfl rfl
  · rename_i half _
    split
    · exact .of_eq rfl rfl
    · dsimp only
      split
      · exact .of_eq rfl rfl
      · rename_i w₁ seq hseq
        have hassign := (assignSendSeq_table hseq).1
        obtain ⟨hnext, hsockets⟩ :=
          send_table w₁ half.place.1 half.place.2.loc half.place.2.rem (.data seq buf) half.conn
            half.side
        refine SameTable.trans ⟨hassign.next, hassign.table⟩ (.of_eq hnext hsockets)

theorem pollShutdown_table (i : Nat) : SameTable w (w.pollShutdown i) := by
  unfold World.pollShutdown
  split
  · exact .of_eq rfl rfl
  · split
    · exact .of_eq rfl rfl
    · split
      · exact .of_eq rfl rfl
      · rename_i w₁ seq hseq
        have hassign := (assignSendSeq_table hseq).1
        split
        · exact hassign
        · rename_i w₂ hsend
          obtain ⟨hnext, hsockets⟩ := sendFrom_table hsend
          exact hassign.trans (.of_eq hnext hsockets)

theorem dropWriteHalf_table (i : Nat) :
    TableStep (w.takesOut (.dropWriteHalf i)) w (w.dropWriteHalf i) := by
  simp only [World.dropWriteHalf, takesOut]
  cases hhalf : w.writers[i]? with
  | none => exact .of_eq rfl rfl
  | some half =>
    simp only [Option.bind_some]
    cases half.isShutdown with
    | true => exact closeStreamHalf_table (.of_eq rfl rfl) rfl
    | false =>
      cases hseq : World.assignSendSeq { w with writers := w.writers.eraseIdx i } half.place with
      | none =>
        simp only [Bool.false_eq_true, if_false]
        exact closeStreamHalf_table (.of_eq rfl rfl) rfl
      | some r =>
        obtain ⟨w₁, seq⟩ := r
        obtain ⟨hassign, hlast⟩ := assignSendSeq_table hseq
        obtain ⟨hnext, hsockets⟩ :=
          send_table w₁ half.place.1 half.place.2.loc half.place.2.rem (.fin seq) half.conn
            half.side
        simp only [Bool.false_eq_true, if_false]
        refine closeStreamHalf_table (SameTable.trans ⟨hassign.next, hassign.table⟩
          (.of_eq hnext hsockets)) ?_
        exact (congrArg (fun t => World.lastHalf { w with sockets := t } half.place) hsockets).trans
          (hlast half.place)

theorem dropReadHalf_table (i : Nat) :
    TableStep (w.takesOut (.dropReadHalf i)) w (w.dropReadHalf i) := by
  simp only [World.dropReadHalf, takesOut]
  cases hhalf : w.readers[i]? with
  | none => exact .of_eq rfl rfl
  | some half =>
    simp only [Option.bind_some]
    cases hunread : w.unread half with
    | true =>
      rw [unread] at hunread
      simp only [hunread, if_true, Bool.true_or]
      obtain ⟨hnext, hsockets⟩ :=
        send_table ({ w with readers := w.readers.eraseIdx i }.dropReceiver half.stream)
          half.place.1 half.place.2.loc half.place.2.rem .rst half.conn half.side
      exact SameTable.reset (w := w) (.of_eq hnext hsockets) half.place
    | false =>
      rw [unread] at hunread
      simp only [hunread, Bool.false_or]
      exact closeStreamHalf_table (.of_eq rfl rfl) rfl

/-- **What a step does to the table.** -/
theorem step_table {op : Op} (h : w.step op = .ok w') : TableStep (w.takesOut op) w w' := by
  cases op with
  | bind host addr =>
    obtain ⟨hosts, binds, rfl⟩ := bind_cases h
    exact .of_eq rfl rfl
  | accept host port => exact accept_table h
  | connect host dst => exact connect_table h
  | deliver i => exact deliver_table h
  | connected i =>
    cases h
    unfold World.connected
    split
    · exact .of_eq rfl rfl
    · split <;> exact .of_eq rfl rfl
  | cancel i =>
    cases h
    unfold World.cancel
    split <;> exact .of_eq rfl rfl
  | read i call =>
    cases h
    unfold World.read
    split <;> exact .of_eq rfl rfl
  | tryWrite i buf =>
    cases h
    exact (tryWrite_table i buf).step
  | pollShutdown i =>
    cases h
    exact (pollShutdown_table i).step
  | dropWriteHalf i =>
    cases h
    exact dropWriteHalf_table i
  | dropReadHalf i =>
    cases h
    exact dropReadHalf_table i
  | unbind host port =>
    cases h
    exact .of_eq rfl rfl
  | setUdp host udp =>
    cases h
    exact .of_eq rfl rfl
  | lose i =>
    cases h
    exact .of_eq rfl rfl

/-! ## 3. Runs -/

/-- Some step of a run takes the socket of a stream out of the table. -/
def EverTakenOut (stream : Nat) (w : World) : List Op → Prop
  | [] => False
  | op :: ops => (∃ p, w.streamAt p = some stream ∧ w.takesOut op = some p)
      ∨ ∃ w', w.step op = .ok w' ∧ EverTakenOut stream w' ops

/-- No socket is one of the stream's. -/
def NoTrace (stream : Nat) (w : World) : Prop := ∀ p, w.streamAt p ≠ some stream

/-- Streams are numbered in the order they are made. -/
def Numbered (w : World) : Prop := ∀ p n, w.streamAt p = some n → n < w.next

/-- The socket of a stream is at a place, and nowhere else. -/
structure OnlyAt (stream : Nat) (place : Place) (w : World) : Prop where
  here : w.streamAt place = some stream
  only : ∀ p, w.streamAt p = some stream → p = place

theorem OnlyAt.trace {stream : Nat} {place : Place} (h : OnlyAt stream place w) :
    ¬ w.NoTrace stream := fun hno => hno place h.here

variable {stream : Nat} {place : Place} {out : Option Place}

theorem TableStep.numbered (h : TableStep out w w') (hw : w.Numbered) : w'.Numbered := by
  intro p n hp
  by_cases hout : out = some p
  · rw [h.gone p hout] at hp
    cases hp
  · rcases h.rest p hout with hsame | ⟨-, hnew, hlt⟩
    · exact Nat.lt_of_lt_of_le (hw p n (hsame.symm.trans hp)) h.next
    · cases hnew.symm.trans hp
      exact hlt

/-- No step makes a stream's socket again. -/
theorem TableStep.noTrace (h : TableStep out w w') (hlt : stream < w.next)
    (hno : w.NoTrace stream) : w'.NoTrace stream := by
  intro p hp
  by_cases hout : out = some p
  · rw [h.gone p hout] at hp
    cases hp
  · rcases h.rest p hout with hsame | ⟨-, hnew, -⟩
    · exact hno p (hsame.symm.trans hp)
    · cases hnew.symm.trans hp
      exact Nat.lt_irrefl _ hlt

/-- **One step** keeps the socket of a stream, unless it takes it out. -/
theorem TableStep.onlyAt (h : TableStep out w w') (hlt : stream < w.next)
    (hw : OnlyAt stream place w) :
    (out ≠ some place → OnlyAt stream place w') ∧ (out = some place → w'.NoTrace stream) := by
  have hrest : ∀ p, p ≠ place → w'.streamAt p ≠ some stream := by
    intro p hne hp
    by_cases hout : out = some p
    · rw [h.gone p hout] at hp
      cases hp
    · rcases h.rest p hout with hsame | ⟨-, hnew, -⟩
      · exact hne (hw.only p (hsame.symm.trans hp))
      · cases hnew.symm.trans hp
        exact Nat.lt_irrefl _ hlt
  refine ⟨fun hout => ⟨?_, fun p hp => ?_⟩, fun hout p hp => ?_⟩
  · rcases h.rest place hout with hsame | ⟨hnone, -⟩
    · exact hsame.trans hw.here
    · cases hnone.symm.trans hw.here
  · by_contra hne
    exact hrest p hne hp
  · by_cases hne : p = place
    · rw [hne, h.gone place hout] at hp
      cases hp
    · exact hrest p hne hp

theorem noTrace_of_run : ∀ {ops : List Op} {w : World}, stream < w.next → w.NoTrace stream →
    w.run ops = .ok w' → w'.NoTrace stream
  | [], w, _, hno, hrun => by
    cases hrun
    exact hno
  | op :: ops, w, hlt, hno, hrun => by
    obtain ⟨w₁, hstep, hrun⟩ := Net.bind_eq_ok.mp hrun
    have htable := step_table hstep
    exact noTrace_of_run (Nat.lt_of_lt_of_le hlt htable.next) (htable.noTrace hlt hno) hrun

/-- **A run** keeps the socket of a stream, unless one of its steps takes it out. -/
theorem onlyAt_of_run : ∀ {ops : List Op} {w : World}, stream < w.next → OnlyAt stream place w →
    w.run ops = .ok w' → (w.EverTakenOut stream ops ∧ w'.NoTrace stream)
      ∨ (¬ w.EverTakenOut stream ops ∧ OnlyAt stream place w')
  | [], w, _, hw, hrun => by
    cases hrun
    exact .inr ⟨id, hw⟩
  | op :: ops, w, hlt, hw, hrun => by
    obtain ⟨w₁, hstep, hrun⟩ := Net.bind_eq_ok.mp hrun
    have htable := step_table hstep
    have hlt' := Nat.lt_of_lt_of_le hlt htable.next
    obtain ⟨hkeep, hgone⟩ := htable.onlyAt hlt hw
    by_cases hout : w.takesOut op = some place
    · exact .inl ⟨.inl ⟨place, hw.here, hout⟩, noTrace_of_run hlt' (hgone hout) hrun⟩
    · have hfirst : w.EverTakenOut stream (op :: ops) → w₁.EverTakenOut stream ops := by
        rintro (⟨p, hp, hp'⟩ | ⟨w₂, hstep', h⟩)
        · rw [hw.only p hp] at hp'
          exact absurd hp' hout
        · cases hstep.symm.trans hstep'
          exact h
      rcases onlyAt_of_run hlt' (hkeep hout) hrun with ⟨hever, hno⟩ | ⟨hever, honly⟩
      · exact .inl ⟨.inr ⟨w₁, hstep, hever⟩, hno⟩
      · exact .inr ⟨mt hfirst hever, honly⟩

theorem new_numbered (addrs : List IpAddr) (first last : UInt16) (capacity : Nat) :
    (World.new addrs first last capacity).Numbered := by
  intro p n hp
  cases hp

theorem numbered_of_run : ∀ {ops : List Op} {w : World}, w.Numbered → w.run ops = .ok w' →
    w'.Numbered
  | [], w, hw, hrun => by
    cases hrun
    exact hw
  | op :: ops, w, hw, hrun => by
    obtain ⟨w₁, hstep, hrun⟩ := Net.bind_eq_ok.mp hrun
    exact numbered_of_run ((step_table hstep).numbered hw) hrun

/-! ## 4. Failed connects -/

/-- **A connect from `w` fails**: in `w₁`, right after the call, as there is no link; or in `w'`,
after the steps of `ops`, as its SYN is gone and was not answered. -/
inductive ConnectFails (w w₁ : World) : List Op → World → Prop where
  | noLink (hnone : w₁.connecting = w.connecting) : ConnectFails w w₁ [] w₁
  | refused {ops : List Op} {w₂ : World} {i : Nat} {c : Connecting} (hrun : w₁.run ops = .ok w₂)
      (hc : w₂.connecting[i]? = some c) (hstream : c.stream = w.next) (hack : c.acked = false)
      (hgone : w₂.synsOf c.conn = 0) :
      ConnectFails w w₁ ops (w₂.cancel i)

theorem cancel_table (w : World) (i : Nat) (p : Place) :
    (w.cancel i).streamAt p = w.streamAt p := by
  unfold cancel
  split <;> rfl

/-- The end of a failed connect has the table of the end of a run. -/
theorem ConnectFails.run {w₁ : World} {ops : List Op} (h : ConnectFails w w₁ ops w') :
    ∃ w₂, w₁.run ops = .ok w₂ ∧ ∀ p, w'.streamAt p = w₂.streamAt p := by
  cases h with
  | noLink => exact ⟨_, rfl, fun _ => rfl⟩
  | refused hrun => exact ⟨_, hrun, cancel_table _ _⟩

theorem isPortAssigned_of_streamAt {host : IpAddr} {pair : SocketPair}
    (h : w.streamAt (host, pair) = some n) :
    w.isPortAssigned host pair.loc.port = true := by
  obtain ⟨slot, hs, -⟩ := Option.map_eq_some_iff.mp h
  have hkey : (host, pair) ∈ w.sockets.keys := IndexMap.mem_keys.mpr ⟨slot, hs⟩
  rw [isPortAssigned, Bool.or_eq_true]
  exact .inr (List.any_eq_true.mpr ⟨_, hkey, by simp⟩)

/-- **A failed connect leaves no trace** exactly if a step between the call and the failure took its
socket out of the table; where it leaves one, the port it was given stays assigned. -/
theorem failed_connect_leaves_no_trace_iff (addrs : List IpAddr) (first last : UInt16)
    (capacity : Nat) (before ops : List Op) (w w₁ w' : World) (host : IpAddr) (dst : SocketAddr)
    (hreach : (World.new addrs first last capacity).run before = .ok w)
    (hhost : w.hosts.get? host ≠ none) (hconnect : w.connect host dst = .ok w₁)
    (hfails : ConnectFails w w₁ ops w') :
    (w'.NoTrace w.next ↔ w₁.EverTakenOut w.next ops)
      ∧ (¬ w'.NoTrace w.next → ∃ port, w.isPortAssigned host port = false
          ∧ w'.isPortAssigned host port = true) := by
  have hnumbered := numbered_of_run (new_numbered addrs first last capacity) hreach
  obtain ⟨w₂, hrun, htable₂⟩ := hfails.run
  rcases connect_spec hconnect with ⟨hno, -⟩ | ⟨pair, hfree, -, hnext, htable⟩
  · exact absurd hno hhost
  have honly : OnlyAt w.next (host, pair) w₁ := by
    refine ⟨by rw [htable, if_pos rfl], fun p hp => ?_⟩
    by_contra hne
    rw [htable, if_neg hne] at hp
    exact Nat.lt_irrefl _ (hnumbered p _ hp)
  have hlt : w.next < w₁.next := by omega
  have hno : w'.NoTrace w.next ↔ w₂.NoTrace w.next := by simp only [NoTrace, htable₂]
  rw [hno]
  rcases onlyAt_of_run hlt honly hrun with ⟨hever, hnone⟩ | ⟨hever, hkept⟩
  · exact ⟨iff_of_true hnone hever, fun h => absurd hnone h⟩
  · refine ⟨iff_of_false hkept.trace hever, fun _ => ⟨pair.loc.port, hfree, ?_⟩⟩
    exact isPortAssigned_of_streamAt ((htable₂ _).trans hkept.here)

/-- Two hosts, with one ephemeral port each and nobody listening. -/
def nobodyListens : World := World.new [.v4 0xC0A80001, .v4 0xC0A80002] 49152 49152 4

/-- A connect to the other host, whose SYN arrives. -/
def dialOps : List Op := [.connect (.v4 0xC0A80001) ⟨.v4 0xC0A80002, 80⟩, .deliver 0]

/-- A refused connect. -/
theorem refused_dial : ∃ w₁ w₂ : World,
    nobodyListens.connect (.v4 0xC0A80001) ⟨.v4 0xC0A80002, 80⟩ = .ok w₁
    ∧ ConnectFails nobodyListens w₁ [.deliver 0] (w₂.cancel 0)
    ∧ (w₂.cancel 0).streamAt (.v4 0xC0A80001, ⟨⟨.v4 0xC0A80001, 49152⟩, ⟨.v4 0xC0A80002, 80⟩⟩)
      = some nobodyListens.next := by
  have hrun : (nobodyListens.run dialOps).toOption.map (fun w =>
      ((w.connecting[0]?.map fun c => (c.stream, c.acked, w.synsOf c.conn)),
        (w.cancel 0).streamAt
          (.v4 0xC0A80001, ⟨⟨.v4 0xC0A80001, 49152⟩, ⟨.v4 0xC0A80002, 80⟩⟩)))
      = some (some (0, false, 0), some 0) := by decide +kernel
  obtain ⟨w₂, hw, hend⟩ := Option.map_eq_some_iff.mp hrun
  obtain ⟨hconnecting, htrace⟩ := Prod.mk.inj hend
  obtain ⟨w₁, hconnect, hdeliver⟩ := Net.bind_eq_ok.mp (Net.toOption_eq_some.mp hw)
  obtain ⟨c, hc, hfields⟩ := Option.map_eq_some_iff.mp hconnecting
  obtain ⟨hstream, hfields⟩ := Prod.mk.inj hfields
  obtain ⟨hack, hgone⟩ := Prod.mk.inj hfields
  exact ⟨w₁, w₂, hconnect, .refused hdeliver hc hstream hack hgone, htrace⟩

/-- The socket of a refused connect, which nothing took out. -/
theorem failed_connect_leaves_no_trace_iff_refused : ∃ w₁ w' : World,
    ¬ w₁.EverTakenOut 0 [.deliver 0]
    ∧ ∃ port, nobodyListens.isPortAssigned (.v4 0xC0A80001) port = false
      ∧ w'.isPortAssigned (.v4 0xC0A80001) port = true := by
  obtain ⟨w₁, w₂, hconnect, hfails, htrace⟩ := refused_dial
  obtain ⟨hiff, hport⟩ := failed_connect_leaves_no_trace_iff [.v4 0xC0A80001, .v4 0xC0A80002] 49152
    49152 4 [] _ _ _ _ _ _ rfl (by decide +kernel) hconnect hfails
  have hkept : ¬ (w₂.cancel 0).NoTrace nobodyListens.next := fun hno => hno _ htrace
  exact ⟨w₁, w₂.cancel 0, mt hiff.mpr hkept, hport hkept⟩

/-- The way a run does not return. -/
def panicOf (x : Except Panic World) : Option Panic :=
  match x with
  | .ok _ => none
  | .error p => some p

/-- **Failed connects use the ports up**: the second call finds none. -/
theorem refused_connects_exhaust_ports :
    panicOf (nobodyListens.run (dialOps ++ [.cancel 0] ++ dialOps)) = some .portsExhausted
      ∧ ¬ ∀ (addrs : List IpAddr) (first last : UInt16) (capacity : Nat) (before ops : List Op)
          (w w₁ w' : World) (host : IpAddr) (dst : SocketAddr),
          (World.new addrs first last capacity).run before = .ok w →
          w.connect host dst = .ok w₁ → ConnectFails w w₁ ops w' → w'.NoTrace w.next := by
  refine ⟨by decide +kernel, fun h => ?_⟩
  obtain ⟨w₁, w₂, hconnect, hfails, htrace⟩ := refused_dial
  exact h [.v4 0xC0A80001, .v4 0xC0A80002] 49152 49152 4 [] _ _ _ _ _ _ rfl hconnect hfails _ htrace

end World

end Turmoil.Stream
