/-
# The cluster example

A client of `examples/cluster` and a server, over one connection: the client writes a message, reads
as many bytes back and asserts that they are the message; the server writes back what it reads.  Either
is a task that is polled, and between two polls segments are delivered in any order.  Between two
requests the client may find that its time is over: it stops and drops its stream, the server reads the
end of it, and drops its own.

The assertion holds because a stream is a prefix of what was written, in both directions, and the server
adds nothing: `Faithful` is the chain of prefixes.  And no call of either task fails, because nobody
shuts a stream down that the other still needs: `Orderly` says who is over, and in which order.
-/
import Turmoil.Stream.InOrder

namespace Turmoil.Cluster

open Turmoil.Stream
open Turmoil.Stream.Connection (Event Inv readIn writtenIn readIn_append writtenIn_append WriteError)

/-! ## 1. The tasks -/

/-- The message, `hello world`. -/
def msg : Bytes := [104, 101, 108, 108, 111, 32, 119, 111, 114, 108, 100]

/-- A poll of `write_all`: what is left to write, or nothing after an error. -/
def pollWriteAll (c : Connection) (s : Side) (rest : Bytes) :
    Connection × List Event × Option Bytes :=
  match c.tryWrite s rest with
  | (c, .ok n) => (c, [.wrote s (rest.take n)], if n = 0 then none else some (rest.drop n))
  | (c, .error .wouldBlock) => (c, [], some rest)
  | (c, .error _) => (c, [], none)

/-- A poll of the stream into a buffer. -/
def pollRead (c : Connection) (s : Side) (filled remaining : Nat) :
    Connection × List Event × Poll Bytes :=
  match (c.reader s).pollRead (c.held s) (c.state s) filled remaining with
  | (r, .ready bytes) => (c.setReader s r, [.read s remaining bytes], .ready bytes)
  | (r, res) => (c.setReader s r, [], res)

/-- Where `Client::request` is. -/
inductive Request where
  | idle
  | writing (rest : Bytes)
  /-- In `read_exact`, with what the buffer holds. -/
  | reading (got : Bytes)
  /-- It returned an error, and the client drops the stream. -/
  | failed
  /-- The loop of `echo_client_cycle` is over, and the client is dropped with its stream. -/
  | stopped
  deriving DecidableEq, Repr

structure Client where
  /-- The requests that returned. -/
  done : Nat
  request : Request
  deriving DecidableEq, Repr

/-- The task of the server for one stream. -/
inductive Server where
  | reading
  | writing (rest : Bytes)
  | ended
  deriving DecidableEq, Repr

/-- A poll of `Client::request`; nothing when its assertion fails. -/
def Client.poll (c : Connection) (client : Client) : Option (Connection × List Event × Client) :=
  match client.request with
  | .idle => some (c, [], { client with request := .writing msg })
  | .writing [] => some (c, [], { client with request := .reading [] })
  | .writing rest =>
    match pollWriteAll c .client rest with
    | (c, evs, some rest) => some (c, evs, { client with request := .writing rest })
    | (c, evs, none) => some (c, evs, { client with request := .failed })
  | .reading got =>
    if got.length = msg.length then
      if got = msg then some (c, [], ⟨client.done + 1, .idle⟩) else none
    else
      match pollRead c .client got.length (msg.length - got.length) with
      | (c, evs, .ready []) => some (c, evs, { client with request := .failed })
      | (c, evs, .ready bytes) => some (c, evs, { client with request := .reading (got ++ bytes) })
      | (c, evs, .pending) => some (c, evs, client)
      | (c, evs, .failed _) => some (c, evs, { client with request := .failed })
  | .failed => some (c, [], client)
  | .stopped => some (c, [], client)

def Server.poll (c : Connection) : Server → Connection × List Event × Server
  | .reading =>
    match pollRead c .server 0 1024 with
    | (c, evs, .ready []) => (c, evs, .ended)
    | (c, evs, .ready bytes) => (c, evs, .writing bytes)
    | (c, evs, .pending) => (c, evs, .reading)
    | (c, evs, .failed _) => (c, evs, .ended)
  | .writing [] => (c, [], .reading)
  | .writing rest =>
    match pollWriteAll c .server rest with
    | (c, evs, some rest) => (c, evs, .writing rest)
    | (c, evs, none) => (c, evs, .ended)
  | .ended => (c, [], .ended)

/-! ## 2. The two together -/

structure World where
  conn : Connection
  client : Client
  server : Server

def World.new (capacity : Nat) : World := ⟨Connection.new capacity, ⟨0, .idle⟩, .reading⟩

/-- A segment arrives, a task is polled, the client finds that its time is over, or a task that is over
drops its stream, which shuts it down. -/
inductive Op where
  | deliver (s : Side) (i : Nat)
  | client
  | server
  | stop
  | drop (s : Side)
  deriving DecidableEq, Repr

/-- Is the task of this side over? -/
def World.over (w : World) : Side → Bool
  | .client => w.client.request == .failed || w.client.request == .stopped
  | .server => w.server == .ended

/-- `has_unread` of the read half's destructor. -/
def hasUnread (c : Connection) (s : Side) : Bool :=
  !(c.endpoint s).rx.isClosed && ((c.endpoint s).rx.buffer.isSome
    || !(c.endpoint s).channel.queue.isEmpty || (c.endpoint s).socket.hasBufferedData)

namespace World

def step (w : World) : Op → Option (World × List Event)
  | .deliver s i => (w.conn.step (.deliver s i)).map fun (c, evs) => ({ w with conn := c }, evs)
  | .client =>
    (w.client.poll w.conn).map fun (c, evs, client) => ({ w with conn := c, client := client }, evs)
  | .server =>
    let (c, evs, server) := w.server.poll w.conn
    some ({ w with conn := c, server := server }, evs)
  | .stop =>
    -- the loop looks at the time between two requests only
    if w.client.request = .idle then some ({ w with client := { w.client with request := .stopped } }, [])
    else some (w, [])
  | .drop s =>
    if w.over s then
      -- the answer to unread data would be a RST
      if hasUnread w.conn s then none
      else (w.conn.step (.pollShutdown s)).map fun (c, evs) => ({ w with conn := c }, evs)
    else some (w, [])

/-- Any number of steps; nothing when an assertion fails, or when a stream is dropped with bytes that
nobody has read. -/
def run (w : World) : List Op → Option (World × List Event)
  | [] => some (w, [])
  | op :: ops => (w.step op).bind fun (w, evs) => (w.run ops).map fun (w, more) => (w, evs ++ more)

end World

/-! ## 3. The polls are calls of the stream -/

variable {c c' : Connection} {s : Side} {capacity : Nat} {tr evs : List Event}

theorem step_pollWriteAll (c : Connection) (s : Side) (rest : Bytes) :
    c.step (.tryWrite s rest) = some ((pollWriteAll c s rest).1, (pollWriteAll c s rest).2.1) := by
  simp only [pollWriteAll, Connection.step]
  generalize c.tryWrite s rest = res
  obtain ⟨c', r⟩ := res
  cases r with
  | ok n => rfl
  | error e => cases e <;> rfl

/-- The bytes that leave are the first of those to write. -/
theorem pollWriteAll_written {rest : Bytes} {left : Option Bytes}
    (h : pollWriteAll c s rest = (c', evs, left)) :
    (∀ rest', left = some rest' → writtenIn s evs ++ rest' = rest) ∧ writtenIn s evs <+: rest
      ∧ writtenIn s.other evs = [] ∧ ∀ s', readIn s' evs = [] := by
  have hne := s.ne_other
  unfold pollWriteAll at h
  split at h
  · rename_i n heq
    cases h
    refine ⟨fun rest' hrest => ?_, ?_, ?_, fun s' => rfl⟩
    · split at hrest
      · cases hrest
      · cases hrest
        simp [writtenIn, List.take_append_drop]
    · simp [writtenIn, List.take_prefix]
    · simp [writtenIn, hne]
  · cases h
    exact ⟨(fun rest' hrest => (Option.some.inj hrest).symm), List.nil_prefix, rfl, fun _ => rfl⟩
  · cases h
    exact ⟨(fun rest' hrest => by cases hrest), List.nil_prefix, rfl, fun _ => rfl⟩

theorem step_pollRead (c : Connection) (s : Side) (filled remaining : Nat) :
    c.step (.pollRead s filled remaining)
      = some ((pollRead c s filled remaining).1, (pollRead c s filled remaining).2.1) := by
  simp only [pollRead, Connection.step]
  generalize (c.reader s).pollRead (c.held s) (c.state s) filled remaining = res
  obtain ⟨r, res⟩ := res
  cases res <;> rfl

/-- What is returned is what was read. -/
theorem pollRead_read {filled remaining : Nat} {res : Poll Bytes}
    (h : pollRead c s filled remaining = (c', evs, res)) :
    (∀ bytes, res = .ready bytes → readIn s evs = bytes) ∧ ((∀ bytes, res ≠ .ready bytes) → evs = [])
      ∧ readIn s.other evs = [] ∧ ∀ s', writtenIn s' evs = [] := by
  have hne := s.ne_other
  unfold pollRead at h
  split at h
  · cases h
    refine ⟨fun bytes hb => ?_, fun hno => absurd rfl (hno _), ?_, fun s' => rfl⟩
    · cases hb
      simp [readIn]
    · simp [readIn, hne]
  · rename_i hno _
    cases h
    exact ⟨(fun bytes hb => (hno bytes hb).elim), (fun _ => rfl), rfl, fun _ => rfl⟩

/-- What a poll or a delivery leaves as it is: it shuts no end down, and an end of the stream that was
seen stays seen. -/
structure Keeps (c c' : Connection) : Prop where
  isShutdown : ∀ s, (c'.endpoint s).isShutdown = (c.endpoint s).isShutdown
  isClosed : ∀ s, (c.endpoint s).rx.isClosed = true → (c'.endpoint s).rx.isClosed = true

theorem Keeps.refl (c : Connection) : Keeps c c := ⟨fun _ => rfl, fun _ h => h⟩

/-- **A poll of `write_all`** fails, or waits for credits, or sends all the bytes in one segment. -/
theorem pollWriteAll_cases {rest : Bytes} {left : Option Bytes}
    (h : pollWriteAll c s rest = (c', evs, left)) :
    (c' = c ∧ left = none ∧ ((c.endpoint s).isShutdown = true ∨ rest = []))
      ∨ (c' = c ∧ left = some rest ∧ (c.flowControl s).write = 0)
      ∨ Keeps c c' ∧ left = some [] := by
  unfold pollWriteAll Connection.tryWrite at h
  dsimp only at h
  by_cases hshut : (c.endpoint s).isShutdown = true
  · rw [if_pos hshut] at h
    cases h
    exact .inl ⟨rfl, rfl, .inl hshut⟩
  · rw [if_neg hshut] at h
    by_cases hempty : rest.isEmpty = true
    · rw [if_pos hempty] at h
      cases h
      exact .inl ⟨rfl, rfl, .inr (List.isEmpty_iff.mp hempty)⟩
    · rw [if_neg hempty] at h
      by_cases hcredit : (c.flowControl s).write = 0
      · rw [if_pos hcredit] at h
        cases h
        exact .inr (.inl ⟨rfl, rfl, hcredit⟩)
      · rw [if_neg hcredit] at h
        dsimp only at h
        have hlen : rest.length ≠ 0 := fun e => hempty (List.isEmpty_iff.mpr (List.length_eq_zero_iff.mp e))
        rw [if_neg hlen, List.drop_length] at h
        cases h
        refine .inr (.inr ⟨⟨fun t => ?_, fun t ht => ?_⟩, rfl⟩)
        · cases s <;> cases t <;> rfl
        · cases s <;> cases t <;> exact ht

theorem keeps_pollWriteAll {rest : Bytes} {left : Option Bytes}
    (h : pollWriteAll c s rest = (c', evs, left)) : Keeps c c' := by
  obtain ⟨rfl, -⟩ | ⟨rfl, -⟩ | ⟨hkeeps, -⟩ := pollWriteAll_cases h
  · exact .refl _
  · exact .refl _
  · exact hkeeps

/-- A write fails only after the stream was shut down. -/
theorem pollWriteAll_fails {rest : Bytes} (hne : rest ≠ [])
    (h : pollWriteAll c s rest = (c', evs, none)) : (c.endpoint s).isShutdown = true := by
  obtain ⟨-, -, hshut | hempty⟩ | ⟨-, hleft, -⟩ | ⟨-, hleft⟩ := pollWriteAll_cases h
  · exact hshut
  · exact absurd hempty hne
  · cases hleft
  · cases hleft

/-- A write takes all the bytes, or none; and it waits only without credits. -/
theorem pollWriteAll_left {rest rest' : Bytes} (h : pollWriteAll c s rest = (c', evs, some rest')) :
    rest' = [] ∨ rest' = rest ∧ (c.flowControl s).write = 0 := by
  obtain ⟨-, hleft, -⟩ | ⟨-, hleft, hcredit⟩ | ⟨-, hleft⟩ := pollWriteAll_cases h
  · cases hleft
  · exact .inr ⟨Option.some.inj hleft, hcredit⟩
  · exact .inl (Option.some.inj hleft)

theorem keeps_pollRead (hinv : Inv capacity c tr) {filled remaining : Nat} {res : Poll Bytes}
    (h : pollRead c s filled remaining = (c', evs, res)) : Keeps c c' := by
  unfold pollRead at h
  generalize hres : (c.reader s).pollRead (c.held s) (c.state s) filled remaining = r at h
  obtain ⟨r, res'⟩ := r
  obtain ⟨-, hready, hother, -⟩ := Reader.pollRead_spec (hinv.reader s) hres
  have hclosed : (c.reader s).rx.isClosed = true → r.rx.isClosed = true := by
    cases res' with
    | ready bytes => exact (hready bytes rfl).1.closed
    | pending => exact (hother fun bytes e => by cases e).closed
    | failed e => exact (hother fun bytes e => by cases e).closed
  obtain rfl : c.setReader s r = c' := by
    cases res' <;> cases h <;> rfl
  refine ⟨fun t => ?_, fun t ht => ?_⟩
  · cases s <;> cases t <;> rfl
  · rw [Connection.setReader_rx]
    split
    · rename_i heq
      exact hclosed (heq ▸ ht)
    · exact ht

/-- A read does not fail: the sender is gone only after its FIN. -/
theorem pollRead_returns {filled remaining : Nat} {e : ReadError} :
    pollRead c s filled remaining ≠ (c', evs, .failed e) := by
  intro h
  unfold pollRead at h
  generalize hres : (c.reader s).pollRead (c.held s) (c.state s) filled remaining = r at h
  obtain ⟨r, res⟩ := r
  have hfill : ∀ r', (c.reader s).pollFill (c.held s) (c.state s) ≠ (r', .failed e) := by
    intro r' hr
    unfold Reader.pollFill at hr
    split at hr
    · cases hr
    · split at hr
      · cases hr
      · split at hr
        · cases hr
        · rename_i hheld
          have hstate : c.state s = .readClosed := if_neg hheld
          rw [if_pos hstate] at hr
          cases hr
  cases res with
  | ready bytes => cases h
  | pending => cases h
  | failed e' =>
    cases h
    unfold Reader.pollRead at hres
    split at hres
    · cases hres
    · split at hres
      · split at hres <;> cases hres
      · cases hres
      · rename_i heq
        cases hres
        exact hfill _ heq

/-! ## 4. The invariant -/

/-- The bytes of so many requests. -/
def requests (n : Nat) : Bytes := (List.replicate n msg).flatten

theorem requests_succ (n : Nat) : requests (n + 1) = requests n ++ msg := by
  rw [requests, List.replicate_succ', List.flatten_append, List.flatten_singleton, requests]

/-- What the client has written and read, by where it is in its loop. -/
def Client.Fits (client : Client) (written read : Bytes) : Prop :=
  match client.request with
  | .idle => written = requests client.done ∧ read = requests client.done
  | .writing rest => written ++ rest = requests (client.done + 1) ∧ read = requests client.done
  | .reading got => written = requests (client.done + 1) ∧ read = requests client.done ++ got
  | .failed => written <+: requests (client.done + 1) ∧ requests client.done <+: read
  | .stopped => written = requests client.done ∧ read = requests client.done

/-- What the server has written and read: it writes what it reads. -/
def Server.Fits (server : Server) (written read : Bytes) : Prop :=
  match server with
  | .reading => written = read
  | .writing rest => written ++ rest = read
  | .ended => written <+: read

/-- Each stream is a prefix of what was written to it, and the tasks are where their streams are. -/
structure Faithful (capacity : Nat) (w : World) (tr : List Event) : Prop where
  conn : Inv capacity w.conn tr
  client : w.client.Fits (writtenIn .client tr) (readIn .client tr)
  server : w.server.Fits (writtenIn .server tr) (readIn .server tr)

/-- How the two come to an end: no request fails, the client shuts down only after it has stopped, and
the server only after it has seen the end of what the client wrote. -/
structure Orderly (w : World) : Prop where
  request : w.client.request ≠ .failed
  client : (w.conn.endpoint .client).isShutdown = true → w.client.request = .stopped
  ended : w.server = .ended → (w.conn.endpoint .server).rx.isClosed = true
  server : (w.conn.endpoint .server).isShutdown = true → w.server = .ended

variable {w w' : World}

theorem Client.Fits.written {client : Client} {written read : Bytes} (h : client.Fits written read) :
    written <+: requests (client.done + 1) := by
  unfold Client.Fits at h
  split at h
  · rw [h.1, requests_succ]
    exact List.prefix_append _ _
  · rw [← h.1]
    exact List.prefix_append _ _
  · rewrite [h.1]
    exact List.prefix_rfl
  · exact h.1
  · rw [h.1, requests_succ]
    exact List.prefix_append _ _

/-- Every request that returned was read. -/
theorem Client.Fits.read {client : Client} {written read : Bytes} (h : client.Fits written read) :
    requests client.done <+: read := by
  unfold Client.Fits at h
  split at h
  · rewrite [h.2]
    exact List.prefix_rfl
  · rewrite [h.2]
    exact List.prefix_rfl
  · rw [h.2]
    exact List.prefix_append _ _
  · exact h.2
  · rewrite [h.2]
    exact List.prefix_rfl

theorem Server.Fits.echoes {server : Server} {written read : Bytes} (h : server.Fits written read) :
    written <+: read := by
  unfold Server.Fits at h
  split at h
  · rewrite [h]
    exact List.prefix_rfl
  · rw [← h]
    exact List.prefix_append _ _
  · exact h

theorem Faithful.stream (h : Faithful capacity w tr) (s : Side) :
    readIn s.other tr <+: writtenIn s tr := by
  obtain ⟨payloads, hw, hflows⟩ := h.conn.flows s
  exact hw ▸ hflows.prefix_written

/-- **The chain of prefixes**: what the client has read, it has written. -/
theorem Faithful.read_written (h : Faithful capacity w tr) :
    readIn .client tr <+: writtenIn .client tr :=
  ((h.stream .server).trans h.server.echoes).trans (h.stream .client)

/-- What comes back is the beginning of the message: so the assertion of the client holds once it is as
long as the message. -/
theorem Faithful.got (h : Faithful capacity w tr) {got : Bytes} (hgot : w.client.request = .reading got) :
    got <+: msg := by
  have hfits := h.client
  unfold Client.Fits at hfits
  rw [hgot] at hfits
  have hpre := h.read_written
  rwa [hfits.1, hfits.2, requests_succ, List.prefix_append_right_inj] at hpre

/-- Whoever has seen the end of a stream knows that the other has shut down, and has read all of it. -/
theorem isShutdown_of_isClosed (h : Inv capacity c tr)
    (hclosed : (c.endpoint s.other).rx.isClosed = true) :
    (c.endpoint s).isShutdown = true ∧ readIn s.other tr = writtenIn s tr := by
  obtain ⟨payloads, hw, hflows⟩ := h.flows s
  obtain ⟨hfin, hall⟩ := hflows.ended hclosed
  exact ⟨hfin, hall.trans hw⟩

/-- A client that has stopped has read all that the server wrote, and the server all that it wrote. -/
theorem Faithful.stopped (h : Faithful capacity w tr) (hstopped : w.client.request = .stopped) :
    readIn .client tr = writtenIn .server tr ∧ readIn .server tr = writtenIn .client tr := by
  have hfits := h.client
  unfold Client.Fits at hfits
  rw [hstopped] at hfits
  have hdown := h.stream .server
  have hecho := h.server.echoes
  have hup := h.stream .client
  have hround : (readIn .client tr).length = (writtenIn .client tr).length := by rw [hfits.1, hfits.2]
  change readIn .client tr <+: writtenIn .server tr at hdown
  change readIn .server tr <+: writtenIn .client tr at hup
  have h₁ := hdown.length_le
  have h₂ := hecho.length_le
  have h₃ := hup.length_le
  exact ⟨hdown.eq_of_length (by omega), hup.eq_of_length (by omega)⟩

/-- A stream that was read to its end is dropped without a RST. -/
theorem hasUnread_eq_false (h : Inv capacity c tr) (hall : readIn s.other tr = writtenIn s tr) :
    hasUnread c s.other = false := by
  obtain ⟨payloads, hw, hflows⟩ := h.flows s
  obtain ⟨hbuf, hqueue, hunder⟩ := hflows.drained (hall.trans hw.symm)
  change (c.endpoint s.other).rx.buffer = none at hbuf
  change (c.endpoint s.other).channel.queue = [] at hqueue
  have hbuffered : (c.endpoint s.other).socket.hasBufferedData = false := by
    refine List.any_eq_false.mpr fun segment hsegment => ?_
    obtain ⟨p, hp, rfl⟩ := List.mem_map.mp hsegment
    rw [hunder p (List.mem_append_right _ hp)]
    exact Bool.false_ne_true
  rw [hasUnread, hbuf, hqueue, hbuffered]
  simp

/-- While the client goes on, nothing is shut down and the server goes on too. -/
theorem Orderly.goes_on (h : Faithful capacity w tr) (ho : Orderly w)
    (hrequest : w.client.request ≠ .stopped) :
    w.server ≠ .ended ∧ ∀ s, (w.conn.endpoint s).isShutdown = false := by
  have hclient : (w.conn.endpoint .client).isShutdown = false :=
    Bool.eq_false_iff.mpr fun hs => hrequest (ho.client hs)
  have hserver : w.server ≠ .ended := by
    intro hended
    have hshut := (isShutdown_of_isClosed (s := .client) h.conn (ho.ended hended)).1
    rw [hclient] at hshut
    cases hshut
  refine ⟨hserver, fun s => ?_⟩
  cases s with
  | client => exact hclient
  | server => exact Bool.eq_false_iff.mpr fun hs => hserver (ho.server hs)

/-- A call that neither task made. -/
theorem Faithful.quiet (h : Faithful capacity w tr) (hinv : Inv capacity c (tr ++ evs))
    (hquiet : ∀ s, writtenIn s evs = [] ∧ readIn s evs = []) :
    Faithful capacity { w with conn := c } (tr ++ evs) := by
  refine ⟨hinv, ?_, ?_⟩
  · rw [writtenIn_append, readIn_append, (hquiet .client).1, (hquiet .client).2, List.append_nil,
      List.append_nil]
    exact h.client
  · rw [writtenIn_append, readIn_append, (hquiet .server).1, (hquiet .server).2, List.append_nil,
      List.append_nil]
    exact h.server

theorem inv_pollWriteAll {rest : Bytes} {left : Option Bytes} (h : Inv capacity c tr)
    (hp : pollWriteAll c s rest = (c', evs, left)) : Inv capacity c' (tr ++ evs) := by
  obtain ⟨c₁, evs₁, hstep, hinv⟩ := h.step (.tryWrite s rest)
  rw [step_pollWriteAll, hp] at hstep
  cases hstep
  exact hinv

theorem inv_pollRead {filled remaining : Nat} {res : Poll Bytes} (h : Inv capacity c tr)
    (hp : pollRead c s filled remaining = (c', evs, res)) : Inv capacity c' (tr ++ evs) := by
  obtain ⟨c₁, evs₁, hstep, hinv⟩ := h.step (.pollRead s filled remaining)
  rw [step_pollRead, hp] at hstep
  cases hstep
  exact hinv

/-- The client makes a call, and the server does not. -/
theorem Faithful.byClient (h : Faithful capacity w tr) {client : Client} (hinv : Inv capacity c (tr ++ evs))
    (hserver : writtenIn .server evs = [] ∧ readIn .server evs = [])
    (hclient : client.Fits (writtenIn .client tr ++ writtenIn .client evs)
      (readIn .client tr ++ readIn .client evs)) :
    Faithful capacity { w with conn := c, client := client } (tr ++ evs) := by
  refine ⟨hinv, ?_, ?_⟩
  · rw [writtenIn_append, readIn_append]
    exact hclient
  · rw [writtenIn_append, readIn_append, hserver.1, hserver.2, List.append_nil, List.append_nil]
    exact h.server

theorem Faithful.byServer (h : Faithful capacity w tr) {server : Server} (hinv : Inv capacity c (tr ++ evs))
    (hclient : writtenIn .client evs = [] ∧ readIn .client evs = [])
    (hserver : server.Fits (writtenIn .server tr ++ writtenIn .server evs)
      (readIn .server tr ++ readIn .server evs)) :
    Faithful capacity { w with conn := c, server := server } (tr ++ evs) := by
  refine ⟨hinv, ?_, ?_⟩
  · rw [writtenIn_append, readIn_append, hclient.1, hclient.2, List.append_nil, List.append_nil]
    exact h.client
  · rw [writtenIn_append, readIn_append]
    exact hserver

/-- **A poll of the client**: its assertion holds. -/
theorem Faithful.pollClient (h : Faithful capacity w tr) : ∃ c evs client,
    w.client.poll w.conn = some (c, evs, client)
      ∧ Faithful capacity { w with conn := c, client := client } (tr ++ evs) := by
  have hinv := h.conn.idle
  have hfits := h.client
  unfold Client.Fits at hfits
  unfold Client.poll
  split
  · rename_i hreq
    rw [hreq] at hfits
    dsimp only at hfits
    refine ⟨_, _, _, rfl, h.byClient hinv ⟨rfl, rfl⟩ ?_⟩
    show (_ ++ []) ++ _ = _ ∧ _ ++ [] = _
    rw [List.append_nil, List.append_nil, requests_succ, hfits.1]
    exact ⟨rfl, hfits.2⟩
  · rename_i hreq
    rw [hreq] at hfits
    dsimp only at hfits
    refine ⟨_, _, _, rfl, h.byClient hinv ⟨rfl, rfl⟩ ?_⟩
    show _ ++ [] = _ ∧ _ ++ [] = _ ++ []
    simp only [List.append_nil] at hfits ⊢
    exact hfits
  · rename_i rest _ hreq
    rw [hreq] at hfits
    dsimp only at hfits
    split
    · rename_i c evs rest' hp
      obtain ⟨hleft, -, hother, hnone⟩ := pollWriteAll_written hp
      refine ⟨_, _, _, rfl, h.byClient (inv_pollWriteAll h.conn hp) ⟨hother, hnone _⟩ ?_⟩
      show (_ ++ _) ++ _ = _ ∧ _ ++ _ = _
      rw [List.append_assoc, hleft rest' rfl, hnone, List.append_nil]
      exact hfits
    · rename_i c evs hp
      obtain ⟨-, hpre, hother, hnone⟩ := pollWriteAll_written hp
      refine ⟨_, _, _, rfl, h.byClient (inv_pollWriteAll h.conn hp) ⟨hother, hnone _⟩ ?_⟩
      show _ ++ _ <+: _ ∧ _ <+: _ ++ _
      rw [hnone, List.append_nil, hfits.2, ← hfits.1]
      exact ⟨(List.prefix_append_right_inj _).mpr hpre, List.prefix_rfl⟩
  · rename_i got hreq
    rw [hreq] at hfits
    dsimp only at hfits
    split
    · rename_i hlen
      have hgot := (h.got hreq).eq_of_length hlen
      rw [if_pos hgot]
      refine ⟨_, _, _, rfl, h.byClient hinv ⟨rfl, rfl⟩ ?_⟩
      show _ ++ [] = _ ∧ _ ++ [] = _
      rw [List.append_nil, List.append_nil]
      exact ⟨hfits.1, by rw [hfits.2, hgot, requests_succ]⟩
    · -- the end of the stream and an error fail the request, which leaves both streams as they are
      have hfailed : ∀ {c evs}, Inv capacity c (tr ++ evs) →
          (writtenIn .server evs = [] ∧ readIn .server evs = []) →
          (writtenIn .client evs = [] ∧ readIn .client evs = []) →
          Faithful capacity { w with conn := c, client := { w.client with request := .failed } }
            (tr ++ evs) := by
        intro c evs hinv hserver hclient
        refine h.byClient hinv hserver ?_
        show _ ++ _ <+: _ ∧ _ <+: _ ++ _
        rw [hclient.1, hclient.2, List.append_nil, List.append_nil, hfits.1, hfits.2]
        exact ⟨List.prefix_rfl, List.prefix_append _ _⟩
      split
      · rename_i c evs hp
        obtain ⟨hread, -, hother, hnone⟩ := pollRead_read hp
        exact ⟨_, _, _, rfl, hfailed (inv_pollRead h.conn hp) ⟨hnone _, hother⟩
          ⟨hnone _, hread [] rfl⟩⟩
      · rename_i c evs bytes _ hp
        obtain ⟨hread, -, hother, hnone⟩ := pollRead_read hp
        refine ⟨_, _, _, rfl, h.byClient (inv_pollRead h.conn hp) ⟨hnone _, hother⟩ ?_⟩
        show _ ++ _ = _ ∧ _ ++ _ = _ ++ (_ ++ _)
        rw [hnone, hread bytes rfl, List.append_nil, ← List.append_assoc, ← hfits.2]
        exact ⟨hfits.1, rfl⟩
      · rename_i c evs hp
        obtain ⟨-, hidle, -, -⟩ := pollRead_read hp
        obtain rfl := hidle fun bytes e => by cases e
        have hq := h.quiet (inv_pollRead h.conn hp) fun s => ⟨rfl, rfl⟩
        exact ⟨_, _, _, rfl, hq.conn, hq.client, hq.server⟩
      · rename_i c evs e hp
        obtain ⟨-, hidle, -, -⟩ := pollRead_read hp
        obtain rfl := hidle fun bytes e => by cases e
        exact ⟨_, _, _, rfl, hfailed (inv_pollRead h.conn hp) ⟨rfl, rfl⟩ ⟨rfl, rfl⟩⟩
  · have hq := h.quiet hinv fun s => ⟨rfl, rfl⟩
    exact ⟨_, _, _, rfl, hq.conn, hq.client, hq.server⟩
  · have hq := h.quiet hinv fun s => ⟨rfl, rfl⟩
    exact ⟨_, _, _, rfl, hq.conn, hq.client, hq.server⟩

/-- **A poll of the server**: it writes what it has read. -/
theorem Faithful.pollServer (h : Faithful capacity w tr) {c : Connection} {evs : List Event}
    {server : Server} (hp : w.server.poll w.conn = (c, evs, server)) :
    Faithful capacity { w with conn := c, server := server } (tr ++ evs) := by
  have hinv := h.conn.idle
  have hfits := h.server
  unfold Server.Fits at hfits
  unfold Server.poll at hp
  split at hp
  · rename_i hserver
    rw [hserver] at hfits
    dsimp only at hfits
    have hended : ∀ {c evs}, Inv capacity c (tr ++ evs) →
        (writtenIn .client evs = [] ∧ readIn .client evs = []) →
        (writtenIn .server evs = [] ∧ readIn .server evs = []) →
        Faithful capacity { w with conn := c, server := .ended } (tr ++ evs) := by
      intro c evs hinv hclient hserver
      refine h.byServer hinv hclient ?_
      show _ ++ _ <+: _ ++ _
      rewrite [hserver.1, hserver.2, List.append_nil, List.append_nil, hfits]
      exact List.prefix_rfl
    split at hp
    · rename_i hread
      cases hp
      obtain ⟨hbytes, -, hother, hnone⟩ := pollRead_read hread
      exact hended (inv_pollRead h.conn hread) ⟨hnone _, hother⟩ ⟨hnone _, hbytes [] rfl⟩
    · rename_i bytes _ hread
      cases hp
      obtain ⟨hbytes, -, hother, hnone⟩ := pollRead_read hread
      refine h.byServer (inv_pollRead h.conn hread) ⟨hnone _, hother⟩ ?_
      show (_ ++ _) ++ _ = _ ++ _
      rw [hnone, hbytes bytes rfl, List.append_nil, hfits]
    · rename_i hread
      cases hp
      obtain ⟨-, hidle, -, -⟩ := pollRead_read hread
      obtain rfl := hidle fun bytes e => by cases e
      refine h.byServer (inv_pollRead h.conn hread) ⟨rfl, rfl⟩ ?_
      show _ ++ [] = _ ++ []
      rw [hfits]
    · rename_i hread
      cases hp
      obtain ⟨-, hidle, -, -⟩ := pollRead_read hread
      obtain rfl := hidle fun bytes e => by cases e
      exact hended (inv_pollRead h.conn hread) ⟨rfl, rfl⟩ ⟨rfl, rfl⟩
  · rename_i hserver
    rw [hserver] at hfits
    dsimp only at hfits
    cases hp
    refine h.byServer hinv ⟨rfl, rfl⟩ ?_
    show _ ++ [] = _ ++ []
    rw [← hfits, List.append_nil, List.append_nil]
  · rename_i rest _ hserver
    rw [hserver] at hfits
    dsimp only at hfits
    split at hp
    · rename_i rest' hwrite
      cases hp
      obtain ⟨hleft, -, hother, hnone⟩ := pollWriteAll_written hwrite
      refine h.byServer (inv_pollWriteAll h.conn hwrite) ⟨hother, hnone _⟩ ?_
      show (_ ++ _) ++ _ = _ ++ _
      rw [List.append_assoc, hleft rest' rfl, hnone, List.append_nil]
      exact hfits
    · rename_i hwrite
      cases hp
      obtain ⟨-, hpre, hother, hnone⟩ := pollWriteAll_written hwrite
      refine h.byServer (inv_pollWriteAll h.conn hwrite) ⟨hother, hnone _⟩ ?_
      show _ ++ _ <+: _ ++ _
      rw [hnone, List.append_nil, ← hfits]
      exact (List.prefix_append_right_inj _).mpr hpre
  · rename_i hserver
    cases hp
    have hq := h.quiet hinv fun s => ⟨rfl, rfl⟩
    refine ⟨hq.conn, hq.client, ?_⟩
    rw [← hserver]
    exact hq.server

/-! ## 5. The order in which they end -/

/-- A read with room that returns nothing has seen the end of the stream. -/
theorem pollRead_end {filled remaining : Nat} (h : Inv capacity c tr) (hroom : 0 < remaining)
    (hp : pollRead c s filled remaining = (c', evs, .ready [])) :
    (c'.endpoint s).rx.isClosed = true := by
  have hinv := inv_pollRead h hp
  refine hinv.ended s ⟨remaining, hroom, .inl (List.mem_append_right _ ?_)⟩
  unfold pollRead at hp
  split at hp
  · cases hp
    exact List.mem_singleton_self _
  · rename_i hne _
    cases hp
    exact (hne _ rfl).elim

theorem Orderly.byClient (ho : Orderly w) {client : Client} (hkeeps : Keeps w.conn c)
    (hrequest : client.request ≠ .failed)
    (hstopped : w.client.request = .stopped → client.request = .stopped) :
    Orderly { w with conn := c, client := client } where
  request := hrequest
  client := fun hs => hstopped (ho.client (hkeeps.isShutdown .client ▸ hs))
  ended := fun hs => hkeeps.isClosed .server (ho.ended hs)
  server := fun hs => ho.server (hkeeps.isShutdown .server ▸ hs)

theorem Orderly.byServer (ho : Orderly w) {server : Server} (hkeeps : Keeps w.conn c)
    (hended : server = .ended → (c.endpoint .server).rx.isClosed = true)
    (hstays : w.server = .ended → server = .ended) :
    Orderly { w with conn := c, server := server } where
  request := ho.request
  client := fun hs => ho.client (hkeeps.isShutdown .client ▸ hs)
  ended := hended
  server := fun hs => hstays (ho.server (hkeeps.isShutdown .server ▸ hs))

/-- **No request fails**: a write or a read of the client could only fail, or end, after a shutdown. -/
theorem Orderly.pollClient (h : Faithful capacity w tr) (ho : Orderly w) {client : Client}
    (hp : w.client.poll w.conn = some (c, evs, client)) :
    Orderly { w with conn := c, client := client } := by
  unfold Client.poll at hp
  split at hp
  · rename_i hreq
    cases hp
    exact ho.byClient (.refl _) Request.noConfusion fun e => Request.noConfusion (hreq.symm.trans e)
  · rename_i hreq
    cases hp
    exact ho.byClient (.refl _) Request.noConfusion fun e => Request.noConfusion (hreq.symm.trans e)
  · rename_i rest hne hreq
    have hrunning : w.client.request ≠ .stopped := fun e => Request.noConfusion (hreq.symm.trans e)
    split at hp
    · rename_i hwrite
      cases hp
      exact ho.byClient (keeps_pollWriteAll hwrite) Request.noConfusion fun e => absurd e hrunning
    · rename_i hwrite
      have hshut := pollWriteAll_fails hne hwrite
      rw [(ho.goes_on h hrunning).2] at hshut
      cases hshut
  · rename_i got hreq
    have hrunning : w.client.request ≠ .stopped := fun e => Request.noConfusion (hreq.symm.trans e)
    split at hp
    · split at hp
      · cases hp
        exact ho.byClient (.refl _) Request.noConfusion fun e => absurd e hrunning
      · cases hp
    · rename_i hlen
      have hle := (h.got hreq).length_le
      split at hp
      · rename_i hread
        have hkeeps := keeps_pollRead h.conn hread
        have hclosed := pollRead_end h.conn (by omega) hread
        have hshut := (isShutdown_of_isClosed (s := .server) (inv_pollRead h.conn hread) hclosed).1
        rw [hkeeps.isShutdown, (ho.goes_on h hrunning).2] at hshut
        cases hshut
      · rename_i hread
        cases hp
        exact ho.byClient (keeps_pollRead h.conn hread) Request.noConfusion fun e => absurd e hrunning
      · rename_i hread
        cases hp
        exact ho.byClient (keeps_pollRead h.conn hread) ho.request fun e => e
      · rename_i hread
        exact absurd hread pollRead_returns
  · rename_i hreq
    exact absurd hreq ho.request
  · cases hp
    exact ho.byClient (.refl _) ho.request fun e => e

/-- The server ends when it reads the end of the stream, and for no other reason. -/
theorem Orderly.pollServer (h : Faithful capacity w tr) (ho : Orderly w) {server : Server}
    (hp : w.server.poll w.conn = (c, evs, server)) :
    Orderly { w with conn := c, server := server } := by
  unfold Server.poll at hp
  split at hp
  · rename_i hserver
    have hrunning : w.server ≠ .ended := fun e => Server.noConfusion (hserver.symm.trans e)
    split at hp
    · rename_i hread
      cases hp
      exact ho.byServer (keeps_pollRead h.conn hread) (fun _ => pollRead_end h.conn (by omega) hread)
        fun e => absurd e hrunning
    · rename_i hread
      cases hp
      exact ho.byServer (keeps_pollRead h.conn hread) Server.noConfusion fun e => absurd e hrunning
    · rename_i hread
      cases hp
      exact ho.byServer (keeps_pollRead h.conn hread) Server.noConfusion fun e => absurd e hrunning
    · rename_i hread
      exact absurd hread pollRead_returns
  · rename_i hserver
    cases hp
    exact ho.byServer (.refl _) Server.noConfusion fun e => Server.noConfusion (hserver.symm.trans e)
  · rename_i rest hne hserver
    have hrunning : w.server ≠ .ended := fun e => Server.noConfusion (hserver.symm.trans e)
    split at hp
    · rename_i hwrite
      cases hp
      exact ho.byServer (keeps_pollWriteAll hwrite) Server.noConfusion fun e => absurd e hrunning
    · rename_i hwrite
      exact absurd (ho.server (pollWriteAll_fails hne hwrite)) hrunning
  · rename_i hserver
    cases hp
    exact ho.byServer (.refl _) (fun _ => ho.ended hserver) fun _ => rfl

/-- A client that is over has stopped, since its requests do not fail. -/
theorem Orderly.stopped (ho : Orderly w) (hover : w.over .client = true) :
    w.client.request = .stopped := by
  obtain hfailed | hstopped := (Bool.or_eq_true _ _).mp hover
  · exact absurd (beq_iff_eq.mp hfailed) ho.request
  · exact beq_iff_eq.mp hstopped

/-- A task that is over has read its stream to the end. -/
theorem Orderly.no_unread (h : Faithful capacity w tr) (ho : Orderly w) (hover : w.over s = true) :
    hasUnread w.conn s = false := by
  cases s with
  | client => exact hasUnread_eq_false (s := .server) h.conn (h.stopped (ho.stopped hover)).1
  | server =>
    rw [hasUnread, ho.ended (beq_iff_eq.mp hover)]
    rfl

/-- The drop of a stream shuts its own end down, and the task was over before. -/
theorem Orderly.drop (ho : Orderly w) (hover : w.over s = true)
    (hstep : w.conn.step (.pollShutdown s) = some (c, evs)) : Orderly { w with conn := c } := by
  have hrest : (∀ t, t ≠ s → (c.endpoint t).isShutdown = (w.conn.endpoint t).isShutdown)
      ∧ ∀ t, (c.endpoint t).rx = (w.conn.endpoint t).rx := by
    simp only [Connection.step, Connection.pollShutdown] at hstep
    by_cases hshut : (w.conn.endpoint s).isShutdown = true
    · rw [if_pos hshut] at hstep
      cases hstep
      exact ⟨fun _ _ => rfl, fun _ => rfl⟩
    · rw [if_neg hshut] at hstep
      cases hstep
      refine ⟨fun t ht => ?_, fun t => ?_⟩
      · cases s <;> cases t <;> first | rfl | exact absurd rfl ht
      · cases s <;> cases t <;> rfl
  refine ⟨ho.request, fun hs => ?_, fun hs => ?_, fun hs => ?_⟩
  · cases s with
    | client => exact ho.stopped hover
    | server => exact ho.client (hrest.1 .client (by decide) ▸ hs)
  · show (c.endpoint .server).rx.isClosed = true
    rw [hrest.2]
    exact ho.ended hs
  · cases s with
    | client => exact ho.server (hrest.1 .server (by decide) ▸ hs)
    | server => exact beq_iff_eq.mp hover

/-! ## 6. Every run -/

theorem Faithful.new (capacity : Nat) : Faithful capacity (World.new capacity) [] :=
  ⟨.new capacity, ⟨rfl, rfl⟩, rfl⟩

theorem Orderly.new (capacity : Nat) : Orderly (World.new capacity) where
  request := Request.noConfusion
  client := fun h => by cases h
  ended := Server.noConfusion
  server := fun h => by cases h

/-- A delivery and a shutdown return, and neither writes nor reads. -/
theorem step_quiet (h : Inv capacity c tr) {op : Connection.Op}
    (hop : (∃ s i, op = .deliver s i) ∨ ∃ s, op = .pollShutdown s) : ∃ c' evs,
    c.step op = some (c', evs) ∧ Inv capacity c' (tr ++ evs)
      ∧ ∀ s, writtenIn s evs = [] ∧ readIn s evs = [] := by
  obtain ⟨c', evs, hstep, hinv⟩ := h.step op
  refine ⟨c', evs, hstep, hinv, fun s => ?_⟩
  rcases hop with ⟨s', i, rfl⟩ | ⟨s', rfl⟩
  · obtain ⟨⟨c₁, outcome⟩, -, hev⟩ := Option.map_eq_some_iff.mp hstep
    cases hev
    cases outcome <;> exact ⟨rfl, rfl⟩
  · unfold Connection.step at hstep
    dsimp only at hstep
    split at hstep <;> cases hstep <;> exact ⟨rfl, rfl⟩

theorem keeps_deliver {i : Nat} (h : c.step (.deliver s i) = some (c', evs)) : Keeps c c' := by
  obtain ⟨⟨c₁, outcome⟩, hdeliver, h⟩ := Option.map_eq_some_iff.mp h
  cases h
  unfold Connection.deliver at hdeliver
  split at hdeliver
  · cases hdeliver
    exact .refl c
  · obtain ⟨⟨socket, channel, outcome'⟩, -, hdeliver⟩ := Option.map_eq_some_iff.mp hdeliver
    cases hdeliver
    refine ⟨fun t => ?_, fun t ht => ?_⟩
    · cases s <;> cases t <;> rfl
    · cases s <;> cases t <;> exact ht

/-- One step: it returns, so no assertion fails and no stream is dropped with unread bytes. -/
theorem Faithful.step (h : Faithful capacity w tr) (ho : Orderly w) (op : Op) :
    ∃ w' evs, w.step op = some (w', evs) ∧ Faithful capacity w' (tr ++ evs) ∧ Orderly w' := by
  have hinv := h.conn.idle
  cases op with
  | deliver s i =>
    obtain ⟨c, evs, hstep, hinv, hquiet⟩ := step_quiet h.conn (.inl ⟨s, i, rfl⟩)
    refine ⟨{ w with conn := c }, evs, ?_, h.quiet hinv hquiet,
      ho.byClient (keeps_deliver hstep) ho.request fun e => e⟩
    rw [World.step, hstep]
    rfl
  | client =>
    obtain ⟨c, evs, client, hpoll, hfaithful⟩ := h.pollClient
    refine ⟨_, evs, ?_, hfaithful, ho.pollClient h hpoll⟩
    rw [World.step, hpoll]
    rfl
  | server => exact ⟨_, _, rfl, h.pollServer rfl, ho.pollServer h rfl⟩
  | stop =>
    by_cases hidle : w.client.request = .idle
    · refine ⟨_, [], by rw [World.step, if_pos hidle], h.byClient hinv ⟨rfl, rfl⟩ ?_,
        ho.byClient (.refl _) Request.noConfusion fun _ => rfl⟩
      have hfits := h.client
      unfold Client.Fits at hfits
      rw [hidle] at hfits
      show _ ++ [] = _ ∧ _ ++ [] = _
      rw [List.append_nil, List.append_nil]
      exact hfits
    · exact ⟨w, [], by rw [World.step, if_neg hidle], by rwa [List.append_nil], ho⟩
  | drop s =>
    cases hover : w.over s with
    | true =>
      obtain ⟨c, evs, hstep, hinv, hquiet⟩ := step_quiet h.conn (.inr ⟨s, rfl⟩)
      refine ⟨{ w with conn := c }, evs, ?_, h.quiet hinv hquiet, ho.drop hover hstep⟩
      rw [World.step, hover, if_pos rfl, ho.no_unread h hover, hstep]
      rfl
    | false =>
      refine ⟨w, [], ?_, by rwa [List.append_nil], ho⟩
      rw [World.step, hover]
      rfl

theorem Faithful.run : ∀ (ops : List Op) {w : World} {tr : List Event}, Faithful capacity w tr →
    Orderly w → ∃ w' evs, w.run ops = some (w', evs) ∧ Faithful capacity w' (tr ++ evs)
      ∧ Orderly w' := by
  intro ops
  induction ops with
  | nil =>
    intro w tr h ho
    exact ⟨w, [], rfl, by rwa [List.append_nil], ho⟩
  | cons op ops ih =>
    intro w tr h ho
    obtain ⟨w₁, first, hstep, h₁, ho₁⟩ := h.step ho op
    obtain ⟨w₂, rest, hrun, h₂, ho₂⟩ := ih h₁ ho₁
    refine ⟨w₂, first ++ rest, ?_, by rwa [← List.append_assoc], ho₂⟩
    rw [World.run, hstep, Option.bind_some]
    show (w₁.run ops).map _ = _
    rw [hrun]
    rfl

/-- **The echo comes back.**  However the tasks are polled and the segments delivered, whenever the client
stops and the streams are dropped, and whatever the capacity of the stream: the assertion of the client
holds whenever it is reached and no stream is dropped with unread bytes, what the client has read it has
written, the server has written what it has read and no more, and the client has written at most one
request beyond those that returned.  No request fails, and the server ends only after the client has
stopped, when all that either wrote was read. -/
theorem echo_comes_back (capacity : Nat) (ops : List Op) : ∃ w tr,
    (World.new capacity).run ops = some (w, tr)
      ∧ readIn .client tr <+: writtenIn .client tr
      ∧ writtenIn .server tr <+: readIn .server tr
      ∧ requests w.client.done <+: readIn .client tr
      ∧ writtenIn .client tr <+: requests (w.client.done + 1)
      ∧ w.client.request ≠ .failed
      ∧ (w.server = .ended → w.client.request = .stopped
        ∧ ∀ s, readIn s.other tr = writtenIn s tr) := by
  obtain ⟨w, tr, hrun, h, ho⟩ := (Faithful.new capacity).run ops (Orderly.new capacity)
  rw [List.nil_append] at h
  refine ⟨w, tr, hrun, h.read_written, h.server.echoes, h.client.read, h.client.written, ho.request,
    fun hended => ?_⟩
  have hshut := (isShutdown_of_isClosed (s := .client) h.conn (ho.ended hended)).1
  have hstopped := ho.client hshut
  refine ⟨hstopped, fun s => ?_⟩
  obtain ⟨hdown, hup⟩ := h.stopped hstopped
  cases s with
  | client => exact hup
  | server => exact hdown

/-- A request returns after one segment in either direction. -/
example : ((World.new 1).run [.client, .client, .client, .deliver .client 0, .server, .server,
    .deliver .server 0, .client, .client]).map (fun r => r.1.client) = some ⟨1, .idle⟩ := by
  decide +kernel

end Turmoil.Cluster
