/-
# No message is lost or doubled

A message that enters a link is dropped, or waits to be due, or waits for its host, or was
delivered: one of the four, at every moment, and to its own destination.

The argument.  `Ledger` is the balance of one destination: what entered for it is, up to order,
what was dropped, what is in either queue, what is in the hand of `deliver_messages`, and what was
delivered.  The second queue is first in, first out, so the messages delivered to a host are a
prefix of those that became ready for it, and each of these was due by then.  Every call keeps the
ledger; time must not run backwards.
-/
import Turmoil.Top.Link

namespace Turmoil.Top

open Turmoil.Net (IpAddr SocketAddr)

variable {μ : Type}

/-! ## 1. What a trace says about one destination -/

def enteredTo (host : IpAddr) (tr : List (Event μ)) : List (Envelope μ) :=
  tr.filterMap fun
    | .entered e => if e.dst.ip = host then some e else none
    | _ => none

def droppedTo (host : IpAddr) (tr : List (Event μ)) : List (Envelope μ) :=
  tr.filterMap fun
    | .dropped e => if e.dst.ip = host then some e else none
    | _ => none

/-- The messages that became ready for a host, with the times they were due at. -/
def readyTo (host : IpAddr) (tr : List (Event μ)) : List (Envelope μ × Nat) :=
  tr.filterMap fun
    | .ready e due => if e.dst.ip = host then some (e, due) else none
    | _ => none

/-- The messages handed to the host at an address, with the link's time. -/
def deliveredTo (host : IpAddr) (tr : List (Event μ)) : List (Envelope μ × Nat) :=
  tr.filterMap fun
    | .delivered at' e now => if at' = host then some (e, now) else none
    | _ => none

section
variable (host : IpAddr) (tr tr' : List (Event μ))

@[simp] theorem enteredTo_append :
    enteredTo host (tr ++ tr') = enteredTo host tr ++ enteredTo host tr' :=
  List.filterMap_append

@[simp] theorem droppedTo_append :
    droppedTo host (tr ++ tr') = droppedTo host tr ++ droppedTo host tr' :=
  List.filterMap_append

@[simp] theorem readyTo_append : readyTo host (tr ++ tr') = readyTo host tr ++ readyTo host tr' :=
  List.filterMap_append

@[simp] theorem deliveredTo_append :
    deliveredTo host (tr ++ tr') = deliveredTo host tr ++ deliveredTo host tr' :=
  List.filterMap_append

end

/-- The messages on the link for a host. -/
def Link.sentTo (l : Link μ) (host : IpAddr) : List (Envelope μ) :=
  (l.sent.map Sent.envelope).filter fun e => e.dst.ip = host

/-- Events that are only drops. -/
theorem drops (host : IpAddr) (es : List (Envelope μ)) :
    enteredTo host (es.map .dropped) = [] ∧ readyTo host (es.map .dropped) = []
      ∧ deliveredTo host (es.map .dropped) = []
      ∧ droppedTo host (es.map .dropped) = es.filter fun e => e.dst.ip = host := by
  induction es with
  | nil => exact ⟨rfl, rfl, rfl, rfl⟩
  | cons e es ih =>
    obtain ⟨h1, h2, h3, h4⟩ := ih
    refine ⟨h1, h2, h3, ?_⟩
    by_cases h : e.dst.ip = host
    · rw [List.filter_cons_of_pos (by simpa using h), ← h4]
      simp only [List.map_cons, droppedTo, List.filterMap_cons, if_pos h]
    · rw [List.filter_cons_of_neg (by simpa using h), ← h4]
      simp only [List.map_cons, droppedTo, List.filterMap_cons, if_neg h]

/-- Events that are only moves to the second queue. -/
theorem moves (host : IpAddr) (ps : List (Envelope μ × Nat)) :
    enteredTo host (ps.map fun p => .ready p.1 p.2) = []
      ∧ droppedTo host (ps.map fun p => .ready p.1 p.2) = []
      ∧ deliveredTo host (ps.map fun p => .ready p.1 p.2) = []
      ∧ readyTo host (ps.map fun p => .ready p.1 p.2) = ps.filter fun p => p.1.dst.ip = host := by
  induction ps with
  | nil => exact ⟨rfl, rfl, rfl, rfl⟩
  | cons p ps ih =>
    obtain ⟨h1, h2, h3, h4⟩ := ih
    refine ⟨h1, h2, h3, ?_⟩
    by_cases h : p.1.dst.ip = host
    · rw [List.filter_cons_of_pos (by simpa using h), ← h4]
      simp only [List.map_cons, readyTo, List.filterMap_cons, if_pos h]
    · rw [List.filter_cons_of_neg (by simpa using h), ← h4]
      simp only [List.map_cons, readyTo, List.filterMap_cons, if_neg h]

/-! ## 2. The ledger -/

/-- The balance of a link after the events `tr`, with messages in the hand of
`deliver_messages`. -/
structure Ledger (hand : IpAddr → List (Envelope μ)) (l : Link μ) (tr : List (Event μ)) : Prop where
  balance : ∀ host, (enteredTo host tr).Perm (droppedTo host tr ++ (l.sentTo host
    ++ (hand host ++ (l.readyFor host ++ (deliveredTo host tr).map Prod.fst))))
  /-- First in, first out. -/
  order : ∀ host, (readyTo host tr).map Prod.fst
    = (deliveredTo host tr).map Prod.fst ++ (hand host ++ l.readyFor host)
  due : ∀ host, ∀ p ∈ readyTo host tr, p.2 ≤ l.now
  /-- What was delivered was due. -/
  punctual : ∀ host, List.Forall₂ (fun r d => r.2 ≤ d.2)
    ((readyTo host tr).take (deliveredTo host tr).length) (deliveredTo host tr)

namespace Ledger

variable {hand : IpAddr → List (Envelope μ)} {l l' : Link μ} {tr tr' : List (Event μ)}

/-- The ledger reads the events of each kind, the two queues and the time. -/
theorem congr (h : Ledger hand l tr) (h1 : ∀ host, enteredTo host tr' = enteredTo host tr)
    (h2 : ∀ host, droppedTo host tr' = droppedTo host tr)
    (h3 : ∀ host, readyTo host tr' = readyTo host tr)
    (h4 : ∀ host, deliveredTo host tr' = deliveredTo host tr)
    (h5 : ∀ host, l'.sentTo host = l.sentTo host)
    (h6 : ∀ host, l'.readyFor host = l.readyFor host) (h7 : l.now ≤ l'.now) :
    Ledger hand l' tr' where
  balance host := by
    rw [h1, h2, h4, h5, h6]
    exact h.balance host
  order host := by
    rw [h3, h4, h6]
    exact h.order host
  due host p hp := by
    rw [h3] at hp
    exact Nat.le_trans (h.due host p hp) h7
  punctual host := by
    rw [h3, h4]
    exact h.punctual host

/-- A change of states and statuses. -/
theorem restate (h : Ledger hand l tr) (h1 : l'.sent.map Sent.envelope = l.sent.map Sent.envelope)
    (h2 : l'.deliverable = l.deliverable) (h3 : l.now ≤ l'.now) : Ledger hand l' tr := by
  refine h.congr (fun _ => rfl) (fun _ => rfl) (fun _ => rfl) (fun _ => rfl) (fun host => ?_)
    (fun host => ?_) h3
  · rw [Link.sentTo, h1, Link.sentTo]
  · rw [Link.readyFor, h2, Link.readyFor]

/-- Events that move nothing to or from the second queue. -/
theorem of_balance (h : Ledger hand l tr) {ev : List (Event μ)} (h1 : ∀ host, readyTo host ev = [])
    (h2 : ∀ host, deliveredTo host ev = []) (h3 : l'.deliverable = l.deliverable)
    (h4 : l'.now = l.now)
    (hb : ∀ host (rest : List (Envelope μ)),
      (droppedTo host tr ++ (l.sentTo host ++ rest) ++ enteredTo host ev).Perm
        (droppedTo host tr ++ droppedTo host ev ++ (l'.sentTo host ++ rest))) :
    Ledger hand l' (tr ++ ev) := by
  have hready : ∀ host, l'.readyFor host = l.readyFor host := by
    intro host
    rw [Link.readyFor, h3, Link.readyFor]
  refine ⟨fun host => ?_, fun host => ?_, fun host p hp => ?_, fun host => ?_⟩
  · rw [enteredTo_append, droppedTo_append, deliveredTo_append, h2, List.append_nil, hready]
    exact ((h.balance host).append_right _).trans (hb host _)
  · rw [readyTo_append, deliveredTo_append, h1, h2, List.append_nil, List.append_nil, hready]
    exact h.order host
  · rw [readyTo_append, h1, List.append_nil] at hp
    rw [h4]
    exact h.due host p hp
  · rw [readyTo_append, deliveredTo_append, h1, h2, List.append_nil, List.append_nil]
    exact h.punctual host

/-- Some of the messages on the link are dropped. -/
theorem drop (h : Ledger hand l tr) (l' : Link μ) (p : Sent μ → Bool)
    (h1 : l'.sent = l.sent.filter fun s => !p s) (h2 : l'.deliverable = l.deliverable)
    (h3 : l'.now = l.now) :
    Ledger hand l' (tr ++ ((l.sent.filter p).map Sent.envelope).map .dropped) := by
  refine h.of_balance (fun host => (drops host _).2.1) (fun host => (drops host _).2.2.1) h2 h3
    fun host rest => ?_
  rw [(drops host _).1, (drops host _).2.2.2, List.append_nil, List.append_assoc]
  refine List.Perm.append_left _ ?_
  rw [← List.append_assoc]
  refine List.Perm.append_right _ ?_
  rw [Link.sentTo, Link.sentTo, h1, ← List.filter_append, ← List.map_append]
  exact ((List.filter_append_perm p l.sent).symm.map _).filter _

/-- There are at least as many messages that became ready as were delivered. -/
theorem delivered_le (h : Ledger hand l tr) (host : IpAddr) :
    (deliveredTo host tr).length ≤ (readyTo host tr).length := by
  have := congrArg List.length (h.order host)
  simp only [List.length_map, List.length_append] at this
  omega

theorem due_le {now : Nat} {ss : List (Sent μ)} : ∀ p ∈ Link.due now ss, p.2 ≤ now := by
  intro p hp
  obtain ⟨s, -, hs⟩ := List.mem_filterMap.mp hp
  obtain ⟨time, ht, rfl⟩ := Option.map_eq_some_iff.mp hs
  unfold Link.dueTime at ht
  split at ht
  · split at ht
    · cases ht
      assumption
    · cases ht
  · cases ht

theorem due_perm (now : Nat) (ss : List (Sent μ)) :
    (ss.map Sent.envelope).Perm
      ((Link.due now ss).map Prod.fst ++ (Link.waiting now ss).map Sent.envelope) := by
  induction ss with
  | nil => exact .nil
  | cons s ss ih =>
    cases hd : Link.dueTime now s with
    | some time =>
      simp only [Link.due, Link.waiting, List.map_cons, List.filterMap_cons, hd, Option.map_some,
        List.filter_cons_of_neg, Option.isNone_some, Bool.false_eq_true, not_false_eq_true,
        List.cons_append]
      exact ih.cons _
    | none =>
      simp only [Link.due, Link.waiting, List.map_cons, List.filterMap_cons, hd, Option.map_none,
        List.filter_cons_of_pos, Option.isNone_none]
      exact (ih.cons _).trans List.perm_middle.symm

/-- `process_deliverables`. -/
theorem process (h : Ledger hand l tr) {ev : List (Event μ)}
    (hp : l.processDeliverables = some (l', ev)) : Ledger hand l' (tr ++ ev) := by
  rw [Link.processDeliverables_eq] at hp
  cases hp
  obtain ⟨f1, f2, -, -⟩ := l.settled_fields
  have hmap : ∀ host, ((Link.due l.now l.sent).filter fun p => p.1.dst.ip = host).map Prod.fst
      = ((Link.due l.now l.sent).map Prod.fst).filter fun e => e.dst.ip = host := by
    intro host
    rw [List.filter_map]
    rfl
  refine ⟨fun host => ?_, fun host => ?_, fun host p hp => ?_, fun host => ?_⟩
  · obtain ⟨e1, e2, e3, -⟩ := moves host (Link.due l.now l.sent)
    simp only [enteredTo_append, droppedTo_append, deliveredTo_append, e1, e2, e3, List.append_nil,
      Link.readyFor_settled]
    refine (h.balance host).trans (List.Perm.append_left _ ?_)
    have hsent : l.settled.sentTo host
        = ((Link.waiting l.now l.sent).map Sent.envelope).filter fun e => e.dst.ip = host := by
      rw [Link.sentTo, f1]
    rw [hsent]
    have hsplit := (due_perm l.now l.sent).filter fun e => e.dst.ip = host
    rw [List.filter_append] at hsplit
    refine (hsplit.append_right _).trans ?_
    -- what is due moves from the front to behind the queue
    generalize List.filter _ (List.map Prod.fst _) = moved
    rw [List.append_assoc]
    refine List.perm_append_comm.trans ?_
    simp only [List.append_assoc]
    refine List.Perm.append_left _ (List.Perm.append_left _ (List.Perm.append_left _ ?_))
    exact List.perm_append_comm
  · obtain ⟨-, -, e3, e4⟩ := moves host (Link.due l.now l.sent)
    rw [readyTo_append, deliveredTo_append, e3, e4, List.append_nil, List.map_append, hmap,
      Link.readyFor_settled, h.order host]
    simp only [List.append_assoc]
  · rw [f2]
    rw [readyTo_append, (moves host _).2.2.2] at hp
    rcases List.mem_append.mp hp with hp | hp
    · exact h.due host p hp
    · exact due_le p (List.mem_of_mem_filter hp)
  · rw [readyTo_append, deliveredTo_append, (moves host _).2.2.1, List.append_nil,
      List.take_append_of_le_length (h.delivered_le host)]
    exact h.punctual host

/-- A message enters: it is dropped at once, or it joins the first queue. -/
theorem enter (h : Ledger hand l tr) (o : Outcome) (e : Envelope μ) :
    Ledger hand (l.enqueue o e).1 (tr ++ .entered e :: (l.enqueue o e).2) := by
  have hent : ∀ host, enteredTo host [.entered e] = [e].filter fun e => e.dst.ip = host := by
    intro host
    by_cases hd : e.dst.ip = host <;> simp [enteredTo, hd]
  have hjoin : ∀ status, Ledger hand (Link.enqueue.push l e status) (tr ++ [.entered e]) := by
    intro status
    refine h.of_balance (fun _ => rfl) (fun _ => rfl) rfl rfl fun host rest => ?_
    have hsent : (Link.enqueue.push l e status).sentTo host
        = l.sentTo host ++ [e].filter fun e => e.dst.ip = host := by
      rw [Link.sentTo, Link.enqueue.push, List.map_append, List.filter_append, Link.sentTo]
      rfl
    rw [hent, hsent, show droppedTo host [.entered e] = [] from rfl]
    simp only [List.append_assoc, List.append_nil]
    exact List.Perm.append_left _ (List.Perm.append_left _ List.perm_append_comm)
  unfold Link.enqueue
  split
  · exact hjoin _
  · exact hjoin _
  · refine h.of_balance (fun _ => rfl) (fun _ => rfl) rfl rfl fun host rest => ?_
    have hdrop : droppedTo host [.entered e, .dropped e] = enteredTo host [.entered e] := by
      rw [hent]
      exact (drops host [e]).2.2.2
    have hone : enteredTo host [.entered e, .dropped e] = enteredTo host [.entered e] := by
      by_cases hd : e.dst.ip = host <;> simp [enteredTo, hd]
    rw [hone, hdrop]
    simp only [List.append_assoc]
    refine List.Perm.append_left _ ?_
    rw [← List.append_assoc]
    exact List.perm_append_comm

/-- Clearing the first queue. -/
theorem clear (h : Ledger hand l tr) (h2 : l'.sent = l.sent) (h3 : l'.deliverable = l.deliverable)
    (h4 : l'.now = l.now) : Ledger hand l'.clear.1 (tr ++ l'.clear.2) := by
  have hd := h.drop l'.clear.1 (fun _ => true) (by simp [Link.clear]) h3 h4
  rw [List.filter_true, List.map_map] at hd
  rw [Link.clear, h2]
  exact hd

theorem envelopes_release (l : Link μ) :
    l.release.sent.map Sent.envelope = l.sent.map Sent.envelope := by
  rw [Link.release, List.map_map]
  refine List.map_congr_left fun s _ => ?_
  simp only [Function.comp_apply]
  split <;> rfl

/-- **A send.** -/
theorem send (h : Ledger hand l tr) {o : Outcome} {e : Envelope μ} {ev : List (Event μ)}
    (hs : l.enqueueMessage o e = some (l', ev)) : Ledger hand l' (tr ++ ev) := by
  obtain ⟨⟨l3, moved⟩, h3, hs⟩ := Option.bind_eq_some_iff.mp hs
  cases hs
  -- first the draws, then the message, then what is due
  have hfault : Ledger hand (l.randPartitionOrRepair o).1
      (tr ++ (l.randPartitionOrRepair o).2) := by
    unfold Link.randPartitionOrRepair
    split
    · exact h.clear rfl rfl rfl
    · split
      · rw [List.append_nil]
        exact h.restate (envelopes_release l) rfl (Nat.le_refl _)
      · rw [List.append_nil]
        exact h
  have hall := (hfault.enter o e).process h3
  simp only [List.append_assoc] at hall ⊢
  exact hall

end Ledger

/-! ## 3. Deliveries -/

section
variable {H : Type} {receive : H → Envelope μ → H × Option μ}

/-- The messages in hand for the host at `addr`. -/
def inHand (addr : IpAddr) (pending : List (Envelope μ)) (host : IpAddr) : List (Envelope μ) :=
  if host = addr then pending else []

/-- Handing over the first message in hand. -/
theorem Ledger.handOver {l : Link μ} {tr : List (Event μ)} {addr : IpAddr} {e : Envelope μ}
    {pending : List (Envelope μ)} (h : Ledger (inHand addr (e :: pending)) l tr) :
    Ledger (inHand addr pending) l (tr ++ [.delivered addr e l.now]) := by
  have hdel : ∀ host, deliveredTo host [.delivered addr e l.now]
      = if host = addr then [(e, l.now)] else [] := by
    intro host
    by_cases hh : host = addr
    · simp [deliveredTo, hh]
    · simp [deliveredTo, hh, Ne.symm hh]
  refine ⟨fun host => ?_, fun host => ?_, fun host p hp => ?_, fun host => ?_⟩
  · have hb := h.balance host
    rw [enteredTo_append, droppedTo_append, deliveredTo_append, hdel,
      show enteredTo host [.delivered addr e l.now] = [] from rfl,
      show droppedTo host [.delivered addr e l.now] = [] from rfl, List.append_nil,
      List.append_nil, List.map_append]
    refine hb.trans (List.Perm.append_left _ (List.Perm.append_left _ ?_))
    unfold inHand
    by_cases hh : host = addr
    · rw [if_pos hh, if_pos hh, if_pos hh, List.cons_append]
      simp only [← List.append_assoc]
      exact (List.perm_append_singleton e _).symm
    · rw [if_neg hh, if_neg hh, if_neg hh, List.map_nil, List.append_nil]
  · have ho := h.order host
    rw [readyTo_append, deliveredTo_append, hdel,
      show readyTo host [.delivered addr e l.now] = [] from rfl, List.append_nil, ho,
      List.map_append]
    unfold inHand
    by_cases hh : host = addr
    · rw [if_pos hh, if_pos hh, if_pos hh]
      simp
    · rw [if_neg hh, if_neg hh, if_neg hh]
      simp
  · rw [readyTo_append, show readyTo host [.delivered addr e l.now] = [] from rfl,
      List.append_nil] at hp
    exact h.due host p hp
  · have hp := h.punctual host
    have ho := congrArg List.length (h.order host)
    rw [readyTo_append, deliveredTo_append, hdel,
      show readyTo host [.delivered addr e l.now] = [] from rfl, List.append_nil]
    by_cases hh : host = addr
    · rw [if_pos hh, List.length_append, List.length_singleton]
      -- the next of the messages that became ready
      have hlt : (deliveredTo host tr).length < (readyTo host tr).length := by
        simp only [inHand, if_pos hh, List.length_append, List.length_map, List.length_cons] at ho
        omega
      rw [List.take_succ_eq_append_getElem hlt]
      refine List.rel_append hp (.cons ?_ .nil)
      exact h.due host _ (List.getElem_mem hlt)
    · rw [if_neg hh, List.append_nil]
      exact hp

theorem Ledger.answer {hand : IpAddr → List (Envelope μ)} {l l' : Link μ} {tr ev : List (Event μ)}
    (h : Ledger hand l tr) {o : Outcome} {e : Envelope μ} {reply : Option μ}
    (ha : l.answer o e reply = some (l', ev)) : Ledger hand l' (tr ++ ev) := by
  cases reply with
  | none =>
    cases ha
    rw [List.append_nil]
    exact h
  | some message => exact h.send ha

/-- The loop of `deliver_messages`. -/
theorem Ledger.loop {addr : IpAddr} {draw : Nat → Outcome} : ∀ {pending : List (Envelope μ)}
    {host host' : H} {l l' : Link μ} {tr ev : List (Event μ)},
    Ledger (inHand addr pending) l tr →
    Link.deliverLoop receive addr draw pending host l = some (l', host', ev) →
    Ledger (inHand addr []) l' (tr ++ ev) := by
  intro pending
  induction pending with
  | nil =>
    intro host host' l l' tr ev h hl
    cases hl
    rw [List.append_nil]
    exact h
  | cons e pending ih =>
    intro host host' l l' tr ev h hl
    obtain ⟨⟨l1, answered⟩, h1, hl⟩ := Option.bind_eq_some_iff.mp hl
    obtain ⟨⟨l2, host2, events⟩, h2, hl⟩ := Option.bind_eq_some_iff.mp hl
    cases hl
    have hall := ih (h.handOver.answer h1) h2
    simpa only [List.append_assoc, List.cons_append, List.nil_append] using hall

theorem Ledger.deliver {l l' : Link μ} {tr ev : List (Event μ)} {addr : IpAddr}
    {draw : Nat → Outcome} {host host' : H} (h : Ledger (fun _ => []) l tr)
    (hd : l.deliverMessages receive addr draw host = some (l', host', ev)) :
    Ledger (fun _ => []) l' (tr ++ ev) := by
  have hready : ∀ g, ({ l with deliverable := l.deliverable.insert addr [] } : Link μ).readyFor g
      = if g = addr then [] else l.readyFor g := by
    intro g
    unfold Link.readyFor
    rw [IndexMap.get?_insert]
    split <;> rfl
  -- the queue is taken in hand
  have htaken : Ledger (inHand addr (l.readyFor addr))
      { l with deliverable := l.deliverable.insert addr [] } tr := by
    refine ⟨fun g => ?_, fun g => ?_, h.due, h.punctual⟩
    · rw [hready]
      refine (h.balance g).trans (List.Perm.append_left _ (List.Perm.append_left _ ?_))
      unfold inHand
      by_cases hg : g = addr
      · rw [if_pos hg, if_pos hg, hg]
        simp
      · rw [if_neg hg, if_neg hg]
    · rw [hready, h.order g]
      unfold inHand
      by_cases hg : g = addr
      · rw [if_pos hg, if_pos hg, hg]
        simp
      · rw [if_neg hg, if_neg hg]
  have hnil : inHand addr ([] : List (Envelope μ)) = fun _ => [] := by
    funext g
    exact ite_self _
  rw [← hnil]
  exact htaken.loop hd

/-! ## 4. Every run -/

/-- Time does not run backwards. -/
def LinkOp.Forward (l : Link μ) : LinkOp μ H → Prop
  | .tick now => l.now ≤ now
  | _ => True

theorem Ledger.step {l l' : Link μ} {tr ev : List (Event μ)} {op : LinkOp μ H}
    (h : Ledger (fun _ => []) l tr) (hop : op.Forward l) (hs : l.step receive op = some (l', ev)) :
    Ledger (fun _ => []) l' (tr ++ ev) := by
  cases op with
  | send o e => exact h.send hs
  | tick now =>
    have hnow : Ledger (fun _ => []) { l with now := now } tr := h.restate rfl rfl hop
    exact hnow.process hs
  | hold =>
    cases hs
    rw [List.append_nil]
    refine h.restate ?_ rfl (Nat.le_refl _)
    rw [Link.hold, List.map_map]
    rfl
  | release =>
    cases hs
    rw [List.append_nil]
    exact h.restate (envelopes_release l) rfl (Nat.le_refl _)
  | partition =>
    cases hs
    exact h.clear rfl rfl rfl
  | partitionOneway source target =>
    obtain ⟨-, f2, f3⟩ := l.setState_fields source target .explicitPartition
    have hd := h.drop (l.partitionOneway source target).1 (fun s => s.src.ip = source)
      (by simp [Link.partitionOneway]) f2 f3
    rw [List.map_map] at hd
    cases hs
    exact hd
  | repair =>
    cases hs
    rw [List.append_nil]
    exact h.restate rfl rfl (Nat.le_refl _)
  | repairOneway source target =>
    cases hs
    rw [List.append_nil]
    obtain ⟨f1, f2, f3⟩ := l.setState_fields source target .healthy
    exact h.restate (congrArg _ f1) f2 (Nat.le_of_eq f3.symm)
  | deliverSent i =>
    cases hs
    rw [List.append_nil]
    refine h.restate ?_ rfl (Nat.le_refl _)
    refine List.ext_getElem? fun j => ?_
    simp only [Link.deliverSent, List.getElem?_map, List.getElem?_modify]
    cases l.sent[j]? with
    | none => rfl
    | some s =>
      simp only [Option.map_eq_map, Option.map_some]
      split <;> rfl
  | deliver addr draw host =>
    obtain ⟨⟨l2, host2, ev2⟩, h2, hs⟩ := Option.map_eq_some_iff.mp hs
    cases hs
    exact h.deliver h2

/-- Every call returns. -/
theorem step_isSome (receive : H → Envelope μ → H × Option μ) (l : Link μ) (op : LinkOp μ H) :
    ∃ r, l.step receive op = some r := by
  have hloop : ∀ (addr : IpAddr) (draw : Nat → Outcome) (pending : List (Envelope μ)) (host : H)
      (l : Link μ), ∃ r, Link.deliverLoop receive addr draw pending host l = some r := by
    intro addr draw pending
    induction pending with
    | nil => exact fun host l => ⟨_, rfl⟩
    | cons e pending ih =>
      intro host l
      obtain ⟨r1, h1⟩ : ∃ r, l.answer (draw pending.length) e (receive host e).2 = some r := by
        cases (receive host e).2 with
        | none => exact ⟨_, rfl⟩
        | some message => exact ⟨_, l.enqueueMessage_eq _ _⟩
      obtain ⟨r2, h2⟩ := ih (receive host e).1 r1.1
      refine ⟨(r2.1, r2.2.1, .delivered addr e l.now :: r1.2 ++ r2.2.2), ?_⟩
      simp only [Link.deliverLoop]
      rw [h1]
      simp only [Option.bind_eq_bind, Option.bind_some]
      rw [h2]
      rfl
  cases op with
  | send o e => exact ⟨_, l.enqueueMessage_eq o e⟩
  | tick now => exact ⟨_, Link.processDeliverables_eq _⟩
  | deliver addr draw host =>
    obtain ⟨r, hr⟩ := hloop addr draw (l.readyFor addr) host
      { l with deliverable := l.deliverable.insert addr [] }
    exact ⟨(r.1, r.2.2), congrArg (Option.map _) hr⟩
  | _ => exact ⟨_, rfl⟩

instance decidableForwardOp (l : Link μ) : (op : LinkOp μ H) → Decidable (op.Forward l)
  | .tick now => inferInstanceAs (Decidable (l.now ≤ now))
  | .send .. | .hold | .release | .partition | .partitionOneway .. | .repair | .repairOneway ..
  | .deliverSent _ | .deliver .. => isTrue trivial

/-- Every tick of a run is forward. -/
def Forward (receive : H → Envelope μ → H × Option μ) : Link μ → List (LinkOp μ H) → Prop
  | _, [] => True
  | l, op :: ops => op.Forward l ∧ ∀ l' ∈ (l.step receive op).map Prod.fst, Forward receive l' ops

instance decidableForward (receive : H → Envelope μ → H × Option μ) :
    ∀ (l : Link μ) (ops : List (LinkOp μ H)), Decidable (Forward receive l ops)
  | _, [] => isTrue trivial
  | l, op :: ops =>
    have : DecidablePred fun l' => Forward receive l' ops := fun l' => decidableForward receive l' ops
    inferInstanceAs (Decidable (op.Forward l
      ∧ ∀ l' ∈ (l.step receive op).map Prod.fst, Forward receive l' ops))

theorem Ledger.run : ∀ {ops : List (LinkOp μ H)} {l : Link μ} {tr : List (Event μ)},
    Ledger (fun _ => []) l tr → Forward receive l ops →
      ∃ l' ev, l.run receive ops = some (l', ev) ∧ Ledger (fun _ => []) l' (tr ++ ev) := by
  intro ops
  induction ops with
  | nil =>
    intro l tr h _
    exact ⟨l, [], rfl, by rw [List.append_nil]; exact h⟩
  | cons op ops ih =>
    intro l tr h hf
    obtain ⟨⟨l1, ev1⟩, h1⟩ := step_isSome receive l op
    obtain ⟨l2, ev2, h2, hl⟩ := ih (h.step hf.1 h1) (hf.2 l1 (by rw [h1]; rfl))
    refine ⟨l2, ev1 ++ ev2, ?_, by rw [← List.append_assoc]; exact hl⟩
    rw [Link.run, h1]
    simp only [Option.bind_eq_bind, Option.bind_some, h2]

theorem readyTo_dst {host : IpAddr} {tr : List (Event μ)} :
    ∀ r ∈ readyTo host tr, r.1.dst.ip = host := by
  intro r hr
  obtain ⟨ev, -, hev⟩ := List.mem_filterMap.mp hr
  cases ev with
  | ready e due =>
    dsimp only at hev
    split at hev
    · cases hev
      assumption
    · cases hev
  | _ => cases hev

/-- What was delivered is what became ready, message by message. -/
theorem Ledger.punctual_eq {l : Link μ} {tr : List (Event μ)} (h : Ledger (fun _ => []) l tr)
    (host : IpAddr) : List.Forall₂ (fun r d => r.1 = d.1 ∧ r.2 ≤ d.2)
      ((readyTo host tr).take (deliveredTo host tr).length) (deliveredTo host tr) := by
  have hfst : ((readyTo host tr).take (deliveredTo host tr).length).map Prod.fst
      = (deliveredTo host tr).map Prod.fst := by
    rw [List.map_take, h.order host, List.take_left' (by rw [List.length_map])]
  refine List.forall₂_iff_get.mpr ⟨(h.punctual host).length_eq, fun i h1 h2 => ⟨?_, ?_⟩⟩
  · have hi : ((readyTo host tr).take (deliveredTo host tr).length)[i].1
        = (deliveredTo host tr)[i].1 := by
      have := List.getElem_of_eq hfst (i := i) (by rw [List.length_map]; exact h1)
      simpa only [List.getElem_map] using this
    exact hi
  · exact (h.punctual host).get h1 h2

theorem Ledger.new (now : Nat) : Ledger (fun _ => []) (Link.new now : Link μ) [] where
  balance _ := .nil
  order _ := rfl
  due _ p hp := by cases hp
  punctual _ := .nil

/-- **Messages are conserved.**  After every run of a link in which time goes forward, and for every
destination: what entered is what was dropped, what is in one of the two queues, and what was
delivered, each once; what was delivered there was addressed there, in the order in which it became
ready, and not before it was due.  No run indexes out of range, and `process_deliverables` is a
stable split of any queue. -/
theorem messages_conserved (receive : H → Envelope μ → H × Option μ) (now : Nat)
    (ops : List (LinkOp μ H)) (hf : Forward receive (Link.new now) ops) :
    ∃ l tr, (Link.new now : Link μ).run receive ops = some (l, tr)
      ∧ (∀ host,
        (enteredTo host tr).Perm (droppedTo host tr ++ (l.sentTo host
          ++ (l.readyFor host ++ (deliveredTo host tr).map Prod.fst)))
        ∧ (∀ d ∈ deliveredTo host tr, d.1.dst.ip = host)
        ∧ (deliveredTo host tr).map Prod.fst <+: (readyTo host tr).map Prod.fst
        ∧ List.Forall₂ (fun r d => r.1 = d.1 ∧ r.2 ≤ d.2)
          ((readyTo host tr).take (deliveredTo host tr).length) (deliveredTo host tr))
      ∧ ∀ q : Link μ, ∃ q', q.processDeliverables
            = some (q', (Link.due q.now q.sent).map fun p => .ready p.1 p.2)
          ∧ q'.sent = Link.waiting q.now q.sent
          ∧ ∀ host, q'.readyFor host = q.readyFor host
            ++ ((Link.due q.now q.sent).map Prod.fst).filter fun e => e.dst.ip = host := by
  obtain ⟨l, tr, hrun, h⟩ := (Ledger.new now).run hf
  rw [List.nil_append] at h
  refine ⟨l, tr, hrun, fun host => ⟨h.balance host, ?_, ?_, ?_⟩, fun q => ?_⟩
  · intro d hd
    have hmem : d.1 ∈ (readyTo host tr).map Prod.fst := by
      rw [h.order host]
      exact List.mem_append_left _ (List.mem_map_of_mem hd)
    obtain ⟨r, hr, heq⟩ := List.mem_map.mp hmem
    rw [← heq]
    exact readyTo_dst r hr
  · exact ⟨_, (h.order host).symm⟩
  · exact h.punctual_eq host
  · exact ⟨q.settled, q.processDeliverables_eq, q.settled_fields.1, q.readyFor_settled⟩

/-- Two requests, one of them slower; the host answers the first, and the link is held before the
second is due. -/
def requestOps : List (LinkOp Nat Unit) :=
  let client : SocketAddr := ⟨.v4 1, 1000⟩
  let server : SocketAddr := ⟨.v4 2, 80⟩
  [.send ⟨false, false, 5⟩ ⟨client, server, 0⟩, .send ⟨false, false, 1⟩ ⟨client, server, 1⟩, .tick 2,
    .deliver server.ip (fun _ => ⟨false, false, 1⟩) (), .hold, .tick 6]

/-- A host that answers every message with the next number. -/
def echo (_ : Unit) (e : Envelope Nat) : Unit × Option Nat := ((), some (e.message + 1))

theorem messages_conserved_request : ∃ l tr,
    (Link.new 0 : Link Nat).run echo requestOps = some (l, tr)
      ∧ (deliveredTo (.v4 2) tr).length = 1 ∧ (l.sentTo (.v4 2)).length = 1
      ∧ (l.sentTo (.v4 1)).length = 1
      ∧ (enteredTo (.v4 2) tr).Perm (droppedTo (.v4 2) tr ++ (l.sentTo (.v4 2)
        ++ (l.readyFor (.v4 2) ++ (deliveredTo (.v4 2) tr).map Prod.fst))) := by
  obtain ⟨l, tr, hrun, hall, -⟩ := messages_conserved echo 0 requestOps (by decide)
  have hval : ((Link.new 0 : Link Nat).run echo requestOps).map (fun r =>
      ((deliveredTo (.v4 2) r.2).length, (r.1.sentTo (.v4 2)).length, (r.1.sentTo (.v4 1)).length))
      = some (1, 1, 1) := by
    decide
  rw [hrun] at hval
  simp only [Option.map_some, Option.some.injEq, Prod.mk.injEq] at hval
  exact ⟨l, tr, hrun, hval.1, hval.2.1, hval.2.2, (hall (.v4 2)).1⟩

end

end Turmoil.Top
