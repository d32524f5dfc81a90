/-
# The echo goes on

The client and the server of the cluster example do not wait for each other.  When nothing is on the
link, everything that was written has arrived (`Stream.Complete`); so if neither task could go on, the
bytes that are missing to one would be with the other, which holds none back.  And once the client has
stopped and its FIN has arrived, the server has nothing left to write and reads the end of the stream.
-/
import Turmoil.Cluster.Echo
import Turmoil.Stream.Complete

namespace Turmoil.Cluster

open Turmoil.Stream
open Turmoil.Stream.Connection (Event Inv Whole readIn writtenIn)

/-! ## 1. The tasks as calls of the stream -/

/-- Some calls of the stream, and what they show. -/
def Calls (c c' : Connection) (evs : List Event) : Prop := ∃ ops, c.run ops = some (c', evs)

variable {c c' c'' : Connection} {s : Side} {capacity : Nat} {tr evs evs' : List Event} {w w' : World}

theorem Calls.none (c : Connection) : Calls c c [] := ⟨[], rfl⟩

theorem Calls.one (op : Connection.Op) (h : c.step op = some (c', evs)) : Calls c c' evs := by
  refine ⟨[op], ?_⟩
  rw [Connection.run, h, Option.bind_some]
  show some (c', evs ++ []) = _
  rw [List.append_nil]

theorem Calls.trans (h : Calls c c' evs) (h' : Calls c' c'' evs') : Calls c c'' (evs ++ evs') := by
  obtain ⟨ops, hrun⟩ := h
  obtain ⟨ops', hrun'⟩ := h'
  refine ⟨ops ++ ops', ?_⟩
  induction ops generalizing c evs with
  | nil =>
    cases hrun
    exact hrun'
  | cons op ops ih =>
    rw [Connection.run] at hrun
    obtain ⟨⟨c₁, first⟩, hstep, hrun⟩ := Option.bind_eq_some_iff.mp hrun
    obtain ⟨⟨c₂, rest⟩, hrest, hrun⟩ := Option.map_eq_some_iff.mp hrun
    cases hrun
    rw [List.cons_append, Connection.run, hstep, Option.bind_some]
    dsimp only
    rw [ih hrest, List.append_assoc]
    rfl

theorem calls_pollWriteAll {rest : Bytes} {left : Option Bytes}
    (h : pollWriteAll c s rest = (c', evs, left)) : Calls c c' evs := by
  refine .one (.tryWrite s rest) ?_
  rw [step_pollWriteAll, h]

theorem calls_pollRead {filled remaining : Nat} {res : Poll Bytes}
    (h : pollRead c s filled remaining = (c', evs, res)) : Calls c c' evs := by
  refine .one (.pollRead s filled remaining) ?_
  rw [step_pollRead, h]

theorem Client.poll_calls {client client' : Client} (h : client.poll c = some (c', evs, client')) :
    Calls c c' evs := by
  unfold Client.poll at h
  split at h
  · cases h
    exact .none c
  · cases h
    exact .none c
  · split at h
    · rename_i hp
      cases h
      exact calls_pollWriteAll hp
    · rename_i hp
      cases h
      exact calls_pollWriteAll hp
  · split at h
    · split at h
      · cases h
        exact .none c
      · cases h
    · split at h <;> rename_i hp <;> cases h <;> exact calls_pollRead hp
  · cases h
    exact .none c
  · cases h
    exact .none c

theorem Server.poll_calls {server server' : Server} (h : server.poll c = (c', evs, server')) :
    Calls c c' evs := by
  unfold Server.poll at h
  split at h
  · split at h <;> rename_i hp <;> cases h <;> exact calls_pollRead hp
  · cases h
    exact .none c
  · split at h
    · rename_i hp
      cases h
      exact calls_pollWriteAll hp
    · rename_i hp
      cases h
      exact calls_pollWriteAll hp
  · cases h
    exact .none c

/-- What a drop does, if it does anything: the shutdown of the stream. -/
theorem step_drop (h : w.step (.drop s) = some (w', evs)) : (w' = w ∧ evs = [])
    ∨ ∃ c, w.conn.step (.pollShutdown s) = some (c, evs) ∧ w' = { w with conn := c } := by
  rw [World.step] at h
  split at h
  · split at h
    · cases h
    · obtain ⟨⟨c, evs⟩, hstep, h⟩ := Option.map_eq_some_iff.mp h
      cases h
      exact .inr ⟨c, hstep, rfl⟩
  · cases h
    exact .inl ⟨rfl, rfl⟩

/-- What the end of the time does: the client stops, if it is between two requests. -/
theorem step_stop (h : w.step .stop = some (w', evs)) : evs = [] ∧ w'.conn = w.conn
    ∧ (w'.client = w.client ∨ w'.client.request = .stopped) := by
  rw [World.step] at h
  split at h <;> cases h
  · exact ⟨rfl, rfl, .inr rfl⟩
  · exact ⟨rfl, rfl, .inl rfl⟩

theorem step_calls {op : Op} (h : w.step op = some (w', evs)) : Calls w.conn w'.conn evs := by
  cases op with
  | deliver s i =>
    obtain ⟨⟨c, evs⟩, hstep, h⟩ := Option.map_eq_some_iff.mp h
    cases h
    exact .one _ hstep
  | client =>
    obtain ⟨⟨c, evs, client⟩, hpoll, h⟩ := Option.map_eq_some_iff.mp h
    cases h
    exact Client.poll_calls hpoll
  | server =>
    cases h
    exact Server.poll_calls rfl
  | stop =>
    obtain ⟨rfl, hconn, -⟩ := step_stop h
    rw [hconn]
    exact .none _
  | drop s =>
    obtain ⟨rfl, rfl⟩ | ⟨c, hstep, rfl⟩ := step_drop h
    · exact .none _
    · exact .one _ hstep

/-- **The two tasks are users of the stream**: a run of them is a run of the connection. -/
theorem run_calls : ∀ {ops : List Op} {w w' : World} {tr : List Event}, w.run ops = some (w', tr) →
    Calls w.conn w'.conn tr := by
  intro ops
  induction ops with
  | nil =>
    intro w w' tr h
    cases h
    exact .none _
  | cons op ops ih =>
    intro w w' tr h
    rw [World.run] at h
    obtain ⟨⟨w₁, first⟩, hstep, h⟩ := Option.bind_eq_some_iff.mp h
    obtain ⟨⟨w₂, rest⟩, hrest, h⟩ := Option.map_eq_some_iff.mp h
    cases h
    exact (step_calls hstep).trans (ih hrest)

/-! ## 2. A message is written at once -/

/-- The client has its whole message to write, or none of it. -/
def AtOnce (client : Client) : Prop := ∀ rest, client.request = .writing rest → rest = msg ∨ rest = []

theorem Client.poll_atOnce {client client' : Client} (ha : AtOnce client)
    (h : client.poll c = some (c', evs, client')) : AtOnce client' := by
  intro rest hrest
  unfold Client.poll at h
  split at h
  · cases h
    cases hrest
    exact .inl rfl
  · cases h
    cases hrest
  · rename_i rest₀ _ hreq
    split at h
    · rename_i hp
      cases h
      cases hrest
      rcases pollWriteAll_left hp with h' | ⟨h', -⟩
      · exact .inr h'
      · rw [h']
        exact ha rest₀ hreq
    · cases h
      cases hrest
  · rename_i got hreq
    split at h
    · split at h
      · cases h
        cases hrest
      · cases h
    · split at h
      · cases h
        cases hrest
      · cases h
        cases hrest
      · cases h
        exact ha rest hrest
      · cases h
        cases hrest
  · cases h
    exact ha rest hrest
  · cases h
    exact ha rest hrest

theorem run_atOnce : ∀ {ops : List Op} {w w' : World} {tr : List Event}, AtOnce w.client →
    w.run ops = some (w', tr) → AtOnce w'.client := by
  intro ops
  induction ops with
  | nil =>
    intro w w' tr ha h
    cases h
    exact ha
  | cons op ops ih =>
    intro w w' tr ha h
    rw [World.run] at h
    obtain ⟨⟨w₁, first⟩, hstep, h⟩ := Option.bind_eq_some_iff.mp h
    obtain ⟨⟨w₂, rest⟩, hrest, h⟩ := Option.map_eq_some_iff.mp h
    cases h
    refine ih ?_ hrest
    cases op with
    | deliver s i =>
      obtain ⟨⟨c, evs⟩, -, hstep⟩ := Option.map_eq_some_iff.mp hstep
      cases hstep
      exact ha
    | client =>
      obtain ⟨⟨c, evs, client⟩, hpoll, hstep⟩ := Option.map_eq_some_iff.mp hstep
      cases hstep
      exact Client.poll_atOnce ha hpoll
    | server =>
      cases hstep
      exact ha
    | stop =>
      obtain ⟨-, -, hsame | hstopped⟩ := step_stop hstep
      · rwa [hsame]
      · exact fun rest hrest => Request.noConfusion (hstopped.symm.trans hrest)
    | drop s =>
      obtain ⟨rfl, -⟩ | ⟨c, -, rfl⟩ := step_drop hstep
      · exact ha
      · exact ha

/-! ## 3. What a task waits for -/

/-- A read waits when there is nothing to read and the sender may still send. -/
theorem pollRead_pending {filled remaining : Nat}
    (h : pollRead c s filled remaining = (c', evs, .pending)) :
    (c.reader s).unread = [] ∧ c.held s = true := by
  unfold pollRead at h
  generalize hres : (c.reader s).pollRead (c.held s) (c.state s) filled remaining = res at h
  obtain ⟨r, res⟩ := res
  cases res with
  | ready bytes => cases h
  | failed e => cases h
  | pending =>
    unfold Reader.pollRead at hres
    split at hres
    · cases hres
    · split at hres
      · split at hres <;> cases hres
      · rename_i hfill
        unfold Reader.pollFill at hfill
        split at hfill
        · cases hfill
        · rename_i hdone
          simp only [Bool.or_eq_true, not_or, Bool.not_eq_true, Option.isSome_eq_false_iff,
            Option.isNone_iff_eq_none] at hdone
          split at hfill
          · cases hfill
          · rename_i htake
            split at hfill
            · rename_i hheld
              refine ⟨?_, hheld⟩
              rw [Reader.unread, hdone.2, Reader.take_eq_none htake]
              rfl
            · split at hfill <;> cases hfill
      · cases hres

/-- A client that stays where it is waits for credits, or for bytes. -/
theorem Client.poll_waits {client : Client} (h : client.poll c = some (c', evs, client))
    (hok : client.request ≠ .failed) (hgoes : client.request ≠ .stopped) :
    (∃ rest, client.request = .writing rest ∧ rest ≠ [] ∧ (c.flowControl .client).write = 0)
      ∨ ∃ got, client.request = .reading got ∧ got.length ≠ msg.length
        ∧ (c.reader .client).unread = [] := by
  have hsame : ∀ {x : Connection × List Event × Client}, some x = some (c', evs, client) →
      x.2.2.request = client.request := fun e => congrArg (fun x => x.2.2.request) (Option.some.inj e)
  unfold Client.poll at h
  split at h
  · rename_i hreq
    cases (hsame h).trans hreq
  · rename_i hreq
    cases (hsame h).trans hreq
  · rename_i rest hne hreq
    split at h
    · rename_i hp
      cases (hsame h).trans hreq
      rcases pollWriteAll_left hp with h' | ⟨-, h'⟩
      · exact absurd h' hne
      · exact .inl ⟨rest, hreq, hne, h'⟩
    · cases (hsame h).trans hreq
  · rename_i got hreq
    split at h
    · split at h
      · cases (hsame h).trans hreq
      · cases h
    · rename_i hlen
      split at h
      · cases (hsame h).trans hreq
      · rename_i bytes hne hp
        have hbytes := List.append_right_eq_self.mp (Request.reading.inj ((hsame h).trans hreq))
        exact absurd hbytes hne
      · rename_i hp
        exact .inr ⟨got, hreq, hlen, (pollRead_pending hp).1⟩
      · cases (hsame h).trans hreq
  · rename_i hreq
    exact absurd hreq hok
  · rename_i hreq
    exact absurd hreq hgoes

theorem Server.poll_waits {server : Server} (h : server.poll c = (c', evs, server))
    (hok : server ≠ .ended) :
    (server = .reading ∧ (c.reader .server).unread = [] ∧ c.held .server = true)
      ∨ ∃ rest, server = .writing rest ∧ rest ≠ [] ∧ (c.flowControl .server).write = 0 := by
  have hsame : ∀ {x : Connection × List Event × Server}, x = (c', evs, server) → x.2.2 = server :=
    fun e => congrArg (fun x => x.2.2) e
  unfold Server.poll at h
  split at h
  · split at h
    · cases hsame h
    · cases hsame h
    · rename_i hp
      exact .inl ⟨rfl, pollRead_pending hp⟩
    · cases hsame h
  · cases hsame h
  · rename_i rest hne
    split at h
    · rename_i hp
      cases hsame h
      rcases pollWriteAll_left hp with h' | ⟨-, h'⟩
      · exact absurd h' hne
      · exact .inr ⟨rest, rfl, hne, h'⟩
    · cases hsame h
  · exact absurd rfl hok

/-! ## 4. They do not wait for each other -/

/-- A channel that is full holds bytes. -/
theorem unread_ne_nil (hinv : Inv capacity c tr) (hpos : 0 < capacity)
    (hfull : (c.endpoint s).channel.queue.length = capacity) : (c.reader s).unread ≠ [] := by
  intro hnil
  obtain ⟨b, hb⟩ := List.exists_mem_of_length_pos (hfull.symm ▸ hpos)
  have hqueue := (List.append_eq_nil_iff.mp hnil).2
  exact (hinv.reader s).queue b hb (List.flatten_eq_nil_iff.mp hqueue b hb)

/-- Both waiting, with nothing on the link: no. -/
theorem Faithful.not_both (h : Faithful capacity w tr) (hwhole : ∀ s, Whole w.conn s)
    (ha : AtOnce w.client) (hpos : 0 < capacity) (hlink : ∀ s, w.conn.link s = [])
    (hclient : (∃ rest, w.client.request = .writing rest ∧ rest ≠ []
        ∧ (w.conn.flowControl .client).write = 0)
      ∨ ∃ got, w.client.request = .reading got ∧ got.length ≠ msg.length
        ∧ (w.conn.reader .client).unread = [])
    (hserver : (w.server = .reading ∧ (w.conn.reader .server).unread = []
        ∧ w.conn.held .server = true)
      ∨ ∃ rest, w.server = .writing rest ∧ rest ≠ [] ∧ (w.conn.flowControl .server).write = 0) :
    False := by
  -- what was written at either end is read or can be read at the other
  obtain ⟨hup, hupCredit⟩ := (hwhole .client).arrived h.conn (hlink .client)
  obtain ⟨hdown, hdownCredit⟩ := (hwhole .server).arrived h.conn (hlink .server)
  have hfits := h.client
  have hfits' := h.server
  unfold Client.Fits at hfits
  unfold Server.Fits at hfits'
  rcases hclient with ⟨rest, hreq, hne, hcredit⟩ | ⟨got, hreq, hlen, hunread⟩
  · -- the message is not written at all, so all that was written has come back
    rw [hreq] at hfits
    obtain rfl := (ha rest hreq).resolve_right hne
    obtain ⟨hwritten, hread⟩ := hfits
    rw [requests_succ] at hwritten
    have hwritten := List.append_cancel_right hwritten
    have hall : (w.conn.reader Side.client.other).unread = [] := by
      have hpre := (h.stream .server).trans h.server.echoes
      have hlen := hpre.length_le
      have hup := congrArg List.length hup
      rw [List.length_append, hwritten, ← hread] at hup
      exact List.eq_nil_of_length_eq_zero (by
        show (w.conn.reader Side.client.other).unread.length = 0
        change (readIn Side.client tr).length ≤ (readIn Side.server tr).length at hlen
        change (readIn Side.server tr).length + _ = (readIn Side.client tr).length at hup
        omega)
    rw [hcredit, Nat.zero_add] at hupCredit
    exact unread_ne_nil h.conn hpos hupCredit hall
  · rw [hreq] at hfits
    rcases hserver with ⟨hreading, hnone, -⟩ | ⟨rest, -, -, hcredit⟩
    · -- everything went round, so the message is complete
      rw [hreading] at hfits'
      have hback : readIn .client tr = writtenIn .client tr := by
        calc readIn .client tr = writtenIn .server tr := by
              rw [← hdown]
              show _ = _ ++ (w.conn.reader .client).unread
              rw [hunread, List.append_nil]
              rfl
          _ = readIn .server tr := hfits'
          _ = writtenIn .client tr := by
              rw [← hup]
              show _ = _ ++ (w.conn.reader .server).unread
              rw [hnone, List.append_nil]
              rfl
      rw [hfits.1, hfits.2, requests_succ] at hback
      exact hlen (congrArg List.length (List.append_cancel_left hback))
    · rw [hcredit, Nat.zero_add] at hdownCredit
      exact unread_ne_nil h.conn hpos hdownCredit hunread

/-- Once the client has stopped and its FIN has arrived, the server does not wait: it has written all that
it has read, and there is an end to read. -/
theorem Faithful.server_ends (h : Faithful capacity w tr) (hwhole : Whole w.conn .client)
    (hlink : w.conn.link .client = []) (hstopped : w.client.request = .stopped)
    (hshut : (w.conn.endpoint .client).isShutdown = true)
    (hpoll : w.server.poll w.conn = (c, evs, w.server)) : w.server = .ended := by
  by_contra hserver
  obtain ⟨-, -, hheld⟩ | ⟨rest, hwriting, hne, -⟩ := Server.poll_waits hpoll hserver
  · have hgone : w.conn.held .server = false := hwhole.fin_passed h.conn hlink hshut
    rw [hgone] at hheld
    cases hheld
  · obtain ⟨hdown, hup⟩ := h.stopped hstopped
    have hfits := h.client
    have hfits' := h.server
    unfold Client.Fits at hfits
    unfold Server.Fits at hfits'
    rw [hstopped] at hfits
    rw [hwriting] at hfits'
    refine hne (List.append_right_eq_self.mp (?_ : writtenIn .server tr ++ rest = writtenIn .server tr))
    calc writtenIn .server tr ++ rest = readIn .server tr := hfits'
      _ = writtenIn .client tr := hup
      _ = readIn .client tr := by rw [hfits.1, hfits.2]
      _ = writtenIn .server tr := hdown

/-- A task that is over can drop its stream, with a FIN and no RST. -/
theorem Orderly.drops (h : Faithful capacity w tr) (ho : Orderly w) (hover : w.over s = true)
    (hopen : (w.conn.endpoint s).isShutdown ≠ true) :
    ∃ w', w.step (.drop s) = some (w', [.shutdown s]) := by
  rw [World.step, hover, if_pos rfl, ho.no_unread h hover]
  simp only [Connection.step, Connection.pollShutdown, if_neg hopen]
  exact ⟨_, rfl⟩

/-- Both tasks are over, and both have dropped their streams. -/
def World.Finished (w : World) : Prop :=
  w.client.request = .stopped ∧ w.server = .ended ∧ ∀ s, (w.conn.endpoint s).isShutdown = true

/-- A step that gets on with it: a task is somewhere else, or a stream is dropped.  That the time is over
does not count. -/
def World.GoesOn (w : World) : Prop :=
  ∃ op w' evs, op ≠ .stop ∧ w.step op = some (w', evs)
    ∧ (w'.client ≠ w.client ∨ w'.server ≠ w.server ∨ ∃ s, .shutdown s ∈ evs)

/-- **The echo does not stall.**  In every world that is reached, with room for a segment: a segment is on
the link, or a task goes on when it is polled or drops its stream, or everything is over: the client has
stopped, the server has ended, and both streams are dropped. -/
theorem echo_does_not_stall (capacity : Nat) (hpos : 0 < capacity) (ops : List Op) : ∃ w tr,
    (World.new capacity).run ops = some (w, tr)
      ∧ (w.Finished ∨ (∃ s, w.conn.link s ≠ []) ∨ w.GoesOn) := by
  obtain ⟨w, tr, hrun, h, ho⟩ := (Faithful.new capacity).run ops (Orderly.new capacity)
  rw [List.nil_append] at h
  refine ⟨w, tr, hrun, ?_⟩
  obtain ⟨calls, hcalls⟩ := run_calls hrun
  have hwhole := Whole.run calls (.new capacity) (Whole.new capacity) hcalls
  have ha : AtOnce w.client := run_atOnce (fun rest e => by cases e) hrun
  by_cases hlink : ∃ s, w.conn.link s ≠ []
  · exact .inr (.inl hlink)
  have hlink : ∀ s, w.conn.link s = [] := fun s => by_contra fun hs => hlink ⟨s, hs⟩
  by_cases hgoes : w.GoesOn
  · exact .inr (.inr hgoes)
  refine .inl ?_
  -- nothing is under way, and neither task goes on
  obtain ⟨c, evs, client, hpoll, -⟩ := h.pollClient
  obtain rfl : client = w.client := by_contra fun hne => hgoes
    ⟨.client, { w with conn := c, client := client }, evs, by decide, by rw [World.step, hpoll]; rfl,
      .inl hne⟩
  obtain ⟨c', evs', server, hpoll'⟩ : ∃ c evs server, w.server.poll w.conn = (c, evs, server) :=
    ⟨_, _, _, rfl⟩
  obtain rfl : server = w.server := by_contra fun hne => hgoes
    ⟨.server, { w with conn := c', server := server }, evs', by decide, by rw [World.step, hpoll'],
      .inr (.inl hne)⟩
  have hdropped : ∀ s, w.over s = true → (w.conn.endpoint s).isShutdown = true := by
    intro s hover
    by_contra hopen
    obtain ⟨w', hstep⟩ := ho.drops h hover hopen
    exact hgoes ⟨.drop s, w', _, Op.noConfusion, hstep, .inr (.inr ⟨s, List.mem_singleton_self _⟩)⟩
  have hstopped : w.client.request = .stopped := by
    by_contra hne
    have hclient := Client.poll_waits hpoll ho.request hne
    have hserver := Server.poll_waits hpoll' (ho.goes_on h hne).1
    exact h.not_both hwhole ha hpos hlink hclient hserver
  have hshut := hdropped .client (by rw [World.over, hstopped]; rfl)
  have hended := h.server_ends (hwhole .client) (hlink .client) hstopped hshut hpoll'
  refine ⟨hstopped, hended, fun s => ?_⟩
  cases s with
  | client => exact hshut
  | server => exact hdropped .server (by rw [World.over, hended]; rfl)

/-- The client has stopped, and its FIN is on the link. -/
theorem echo_does_not_stall_stopped : ∃ w tr,
    (World.new 1).run [.client, .client, .client, .deliver .client 0, .server, .server,
        .deliver .server 0, .client, .client, .stop, .drop .client] = some (w, tr)
      ∧ (w.Finished ∨ (∃ s, w.conn.link s ≠ []) ∨ w.GoesOn) :=
  echo_does_not_stall 1 Nat.one_pos _

/-- A client that stops at once: both streams are dropped. -/
example : ((World.new 1).run [.stop, .drop .client, .deliver .client 0, .server, .drop .server]).map
    (fun r => (r.1.client.request, r.1.server, (r.1.conn.endpoint .client).isShutdown,
      (r.1.conn.endpoint .server).isShutdown)) = some (.stopped, .ended, true, true) := by
  decide +kernel

end Turmoil.Cluster
