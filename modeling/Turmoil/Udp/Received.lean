/-
# Datagrams arrive once, in order, or not at all

A datagram that a socket receives was sent to it, and no copy of it is received twice; a socket receives
what its channel accepted, in that order, without a gap.  Both are about all runs: sockets are bound
and dropped, ports are bound again, and packets overtake each other and are lost.

What a channel accepted is what its socket has received, what `readable` took out, and the queue,
because the only steps that change one of these move a datagram from one to the next.
-/
import Turmoil.Udp.Channels

namespace Turmoil.Udp

open Turmoil.Net (IpAddr SocketAddr)
open Turmoil.Stream (matchesBind)

namespace World

variable {w w' : World} {ev : List Event}

/-! ## 1. The invariant -/

/-- **What holds of the sockets and of all that happened.**  `held` is the heart of it: what a channel
accepted is what its socket has returned, followed by what it holds.  The others say that a channel has
one socket, that a number not given out yet has no history, and that a socket which is dropped leaves a
prefix behind. -/
structure Inv (w : World) (tr : List Event) : Prop where
  moves : Moves new w tr
  unused : ∀ c, w.channels ≤ c → acceptedOn c tr = [] ∧ returnedOn c tr = []
  used : ∀ {h port s}, w.socket? h port = some s → s.channel < w.channels
  distinct : ∀ {h port s h' port' s'}, w.socket? h port = some s → w.socket? h' port' = some s' →
    s.channel = s'.channel → h = h' ∧ port = port'
  held : ∀ {h port s}, w.socket? h port = some s →
    (acceptedOn s.channel tr).map Packet.content = returnedOn s.channel tr ++ s.pending
  room : ∀ {h port s}, w.socket? h port = some s → s.queue.length ≤ s.capacity
  addressed : ∀ {h port s}, w.socket? h port = some s →
    ∀ p ∈ acceptedOn s.channel tr, p.dst.port = port ∧ matchesBind s.bindAddr p.dst
  inOrder : ∀ c, returnedOn c tr <+: (acceptedOn c tr).map Packet.content

/-- Steps compose: a packet is sent once, and gone once. -/
theorem Moves.trans {w₀ : World} {tr : List Event} (h₁ : Moves w₀ w tr) (h₂ : Moves w w' ev) :
    Moves w₀ w' (tr ++ ev) := by
  rw [Moves, goneOf_append, sentOf_append]
  calc (w'.bag ++ (goneOf tr ++ goneOf ev)).Perm _ := List.perm_append_comm_assoc _ _ _
    List.Perm _ (goneOf tr ++ (w.bag ++ sentOf ev)) := List.Perm.append_left _ h₂
    List.Perm _ (w.bag ++ (goneOf tr ++ sentOf ev)) := List.perm_append_comm_assoc _ _ _
    List.Perm _ (w.bag ++ goneOf tr ++ sentOf ev) := .of_eq (List.append_assoc _ _ _).symm
    List.Perm _ (w₀.bag ++ sentOf tr ++ sentOf ev) := List.Perm.append_right _ h₁
    List.Perm _ (w₀.bag ++ (sentOf tr ++ sentOf ev)) := .of_eq (List.append_assoc _ _ _)

section
variable {tr : List Event}

/-- A step that is about another channel leaves the history of this one alone. -/
theorem Silent.accepted {c : Option Nat} (h : Silent ev c) {c' : Nat} (hne : c ≠ some c') :
    acceptedOn c' (tr ++ ev) = acceptedOn c' tr := by
  rw [acceptedOn_append, (h c' hne).1, List.append_nil]

theorem Silent.returned {c : Option Nat} (h : Silent ev c) {c' : Nat} (hne : c ≠ some c') :
    returnedOn c' (tr ++ ev) = returnedOn c' tr := by
  rw [returnedOn_append, (h c' hne).2, List.append_nil]

/-- The invariant of a silent step is about its sockets. -/
theorem Inv.of_silent (hi : Inv w tr) (hm : Moves w w' ev) (hev : Silent ev none)
    (hc : w.channels ≤ w'.channels)
    (hold : ∀ {h port s}, w'.socket? h port = some s → w.socket? h port = some s
      ∨ (s.channel = w.channels ∧ w.channels < w'.channels ∧ s.queue = [] ∧ s.pending = []))
    (hnew : ∀ {h port s h' port' s'}, w'.socket? h port = some s → w'.socket? h' port' = some s' →
      s.channel = w.channels → s'.channel = w.channels → h = h' ∧ port = port') :
    Inv w' (tr ++ ev) := by
  have hacc : ∀ c, acceptedOn c (tr ++ ev) = acceptedOn c tr := fun c =>
    hev.accepted (Option.some_ne_none c).symm
  have hret : ∀ c, returnedOn c (tr ++ ev) = returnedOn c tr := fun c =>
    hev.returned (Option.some_ne_none c).symm
  have hnone : ∀ {s : Sock}, s.channel = w.channels → acceptedOn s.channel tr = []
      ∧ returnedOn s.channel tr = [] := fun e => hi.unused _ (Nat.le_of_eq e.symm)
  constructor
  · exact hi.moves.trans hm
  · intro c hcc
    rw [hacc, hret]
    exact hi.unused c (Nat.le_trans hc hcc)
  · intro h port s hs
    rcases hold hs with hs | ⟨e, hlt, -, -⟩
    · exact Nat.lt_of_lt_of_le (hi.used hs) hc
    · exact e ▸ hlt
  · intro h port s h' port' s' hs hs' he
    rcases hold hs with hw | ⟨e, -⟩
    · rcases hold hs' with hw' | ⟨e', -⟩
      · exact hi.distinct hw hw' he
      · exact absurd (hi.used hw) (Nat.not_lt.mpr (Nat.le_of_eq (he.trans e').symm))
    · exact hnew hs hs' e (he ▸ e)
  · intro h port s hs
    rw [hacc, hret]
    rcases hold hs with hw | ⟨e, -, -, hp⟩
    · exact hi.held hw
    · rw [(hnone e).1, (hnone e).2, hp]
      rfl
  · intro h port s hs
    rcases hold hs with hw | ⟨-, -, hq, -⟩
    · exact hi.room hw
    · rw [hq]
      exact Nat.zero_le _
  · intro h port s hs
    rw [hacc]
    rcases hold hs with hw | ⟨e, -⟩
    · exact hi.addressed hw
    · rw [(hnone e).1]
      exact fun p hp => absurd hp List.not_mem_nil
  · intro c
    rw [hacc, hret]
    exact hi.inOrder c

/-- **One step** keeps the invariant. -/
theorem Inv.step (hi : Inv w tr) (hm : Moves w w' ev) (hc : Change w w' ev) :
    Inv w' (tr ++ ev) := by
  cases hc with
  | same hs hc hev =>
    refine hi.of_silent hm hev (Nat.le_of_eq hc.symm) (fun h => .inl (hs _ _ ▸ h)) ?_
    intro h port s h' port' s' hw hw' e e'
    rw [hs] at hw hw'
    exact hi.distinct hw hw' (e.trans e'.symm)
  | bound a port₀ s₀ hnew _ hq hp hs hc hev =>
    refine hi.of_silent hm hev (by omega) (fun {h port s} hw => ?_) ?_
    · rw [hs] at hw
      split at hw
      · cases hw
        exact .inr ⟨hnew, by omega, hq, hp⟩
      · exact .inl hw
    · intro h port s h' port' s' hw hw' e e'
      rw [hs] at hw hw'
      split at hw
      · rename_i heq
        split at hw'
        · rename_i heq'
          exact ⟨heq.1.trans heq'.1.symm, heq.2.trans heq'.2.symm⟩
        · exact absurd (hi.used hw') (by omega)
      · exact absurd (hi.used hw) (by omega)
  | closed a port₀ hs hc hev =>
    refine hi.of_silent hm (hev ▸ fun c _ => ⟨rfl, rfl⟩) (Nat.le_of_eq hc.symm) (fun {h port s} hw => ?_) ?_
    · rw [hs] at hw
      split at hw
      · cases hw
      · exact .inl hw
    · intro h port s h' port' s' hw hw' e e'
      rw [hs] at hw hw'
      split at hw
      · cases hw
      · split at hw'
        · cases hw'
        · exact hi.distinct hw hw' (e.trans e'.symm)
  | moved a port₀ s₀ s₁ hget hch haddr hcap hqueue hpend hto hs hc hev =>
    have hheld₁ : (acceptedOn s₁.channel (tr ++ ev)).map Packet.content
        = returnedOn s₁.channel (tr ++ ev) ++ s₁.pending := by
      rw [hch, acceptedOn_append, returnedOn_append, List.map_append, hi.held hget,
        List.append_assoc, List.append_assoc, hpend]
    -- a socket after the step is the one that moved, or has another channel and is as before
    have hcases : ∀ {h port s}, w'.socket? h port = some s → (h = a ∧ port = port₀ ∧ s = s₁)
        ∨ (w.socket? h port = some s ∧ some s₀.channel ≠ some s.channel) := by
      intro h port s hw
      rw [hs] at hw
      split at hw
      · rename_i heq
        cases hw
        exact .inl ⟨heq.1, heq.2, rfl⟩
      · rename_i hne
        refine .inr ⟨hw, fun e => hne ?_⟩
        obtain ⟨rfl, rfl⟩ := hi.distinct hw hget (Option.some.inj e).symm
        exact ⟨rfl, rfl⟩
    constructor
    · exact hi.moves.trans hm
    · intro c hcc
      have hne : some s₀.channel ≠ some c := fun e => by
        have := hi.used hget
        rw [Option.some.inj e] at this
        omega
      rw [hev.accepted hne, hev.returned hne]
      exact hi.unused c (hc ▸ hcc)
    · intro h port s hw
      rw [hc]
      rcases hcases hw with ⟨-, -, rfl⟩ | ⟨hw, -⟩
      · exact hch ▸ hi.used hget
      · exact hi.used hw
    · intro h port s h' port' s' hw hw' e
      rcases hcases hw with ⟨rfl, rfl, rfl⟩ | ⟨hw, hne⟩
      · rcases hcases hw' with ⟨rfl, rfl, rfl⟩ | ⟨hw', hne'⟩
        · exact ⟨rfl, rfl⟩
        · exact absurd (congrArg some (hch.symm.trans e)) hne'
      · rcases hcases hw' with ⟨rfl, rfl, rfl⟩ | ⟨hw', hne'⟩
        · exact absurd (congrArg some (hch.symm.trans e.symm)) hne
        · exact hi.distinct hw hw' e
    · intro h port s hw
      rcases hcases hw with ⟨-, -, rfl⟩ | ⟨hw, hne⟩
      · exact hheld₁
      · rw [hev.accepted hne, hev.returned hne]
        exact hi.held hw
    · intro h port s hw
      rcases hcases hw with ⟨-, -, rfl⟩ | ⟨hw, -⟩
      · rw [hcap]
        exact hqueue.elim (fun hle => Nat.le_trans hle (hi.room hget)) id
      · exact hi.room hw
    · intro h port s hw p hp
      rcases hcases hw with ⟨-, rfl, rfl⟩ | ⟨hw, hne⟩
      · rw [hch, acceptedOn_append] at hp
        rw [haddr]
        rcases List.mem_append.mp hp with hp | hp
        · exact hi.addressed hget p hp
        · exact hto p hp
      · rw [hev.accepted hne] at hp
        exact hi.addressed hw p hp
    · intro c
      by_cases hne : some s₀.channel = some c
      · cases hne
        rw [← hch, hheld₁]
        exact List.prefix_append _ _
      · rw [hev.accepted hne, hev.returned hne]
        exact hi.inOrder c

theorem Inv.new : Inv new [] where
  moves := .refl _
  unused _ _ := ⟨rfl, rfl⟩
  used h := by cases h
  distinct h := by cases h
  held h := by cases h
  room h := by cases h
  addressed h := by cases h
  inOrder _ := List.nil_prefix

/-- **Every run** keeps the invariant, because each of its steps does. -/
theorem Inv.run {ops : List Op} : ∀ {w w' : World} {tr ev : List Event}, Inv w tr →
    w.run ops = .ok (w', ev) → Inv w' (tr ++ ev) := by
  induction ops with
  | nil =>
    intro w w' tr ev hi h
    cases h
    rw [List.append_nil]
    exact hi
  | cons op ops ih =>
    intro w w' tr ev hi h
    obtain ⟨⟨w₁, first⟩, h₁, h⟩ := Net.bind_eq_ok.mp h
    obtain ⟨⟨w₂, rest⟩, h₂, h⟩ := Net.bind_eq_ok.mp h
    cases h
    rw [← List.append_assoc]
    exact ih (hi.step (step_bag h₁) (step_change h₁)) h₂

/-- What was received was sent, and no more often. -/
theorem Inv.received (hi : Inv w tr) :
    ((Udp.received tr).map Prod.snd).Subperm ((sentOf tr).map Packet.content) := by
  have htaken : (Udp.received tr).Subperm (taken tr) := by
    refine List.subperm_ext_iff.mpr ?_
    rintro ⟨c, x⟩ -
    rw [count_received, count_taken]
    exact (hi.inOrder c).sublist.count_le x
  have hgone : (goneOf tr).Subperm (sentOf tr) :=
    (List.sublist_append_right w.bag _).subperm.trans hi.moves.subperm
  obtain ⟨l, hl, hsub⟩ := htaken
  obtain ⟨l', hl', hsub'⟩ := hgone
  have htaken' : ((Udp.received tr).map Prod.snd).Subperm ((taken tr).map Prod.snd) :=
    ⟨l.map Prod.snd, hl.map _, hsub.map _⟩
  exact htaken'.trans ((taken_sublist tr).subperm.trans
    ⟨l'.map Packet.content, hl'.map _, hsub'.map _⟩)

end

/-! ## 2. Every run -/

/-- **Datagrams arrive once, in order, or not at all.**  After every run: a packet that was sent is
under way, lost, discarded, or accepted by a channel; what was received was sent, and no more often; a
socket receives what its channel accepted, in that order and from the first on; what it has not received
yet it still holds; and what its channel accepted was sent to an address that the socket is bound to. -/
theorem datagrams_arrive_once {ops : List Op} {w : World} {tr : List Event}
    (h : new.run ops = .ok (w, tr)) :
    (w.bag ++ goneOf tr).Perm (sentOf tr)
      ∧ ((received tr).map Prod.snd).Subperm ((sentOf tr).map Packet.content)
      ∧ (∀ channel, returnedOn channel tr <+: (acceptedOn channel tr).map Packet.content)
      ∧ ∀ a port b, w.bind? a port = some b →
          (acceptedOn b.channel tr).map Packet.content
            = returnedOn b.channel tr ++ (b.buffer.toList ++ b.queue)
          ∧ ∀ p ∈ acceptedOn b.channel tr, p.dst.port = port ∧ matchesBind b.bindAddr p.dst := by
  have hi : Inv w tr := Inv.new.run h
  refine ⟨hi.moves, hi.received, hi.inOrder, fun a port b hb => ?_⟩
  obtain ⟨host, hget, hbind⟩ := Option.bind_eq_some_iff.mp hb
  have hs : w.socket? a port = some (sockOf host b) := by
    rw [socket?, hget]
    show (host.binds.get? port).map _ = _
    rw [hbind]
    rfl
  exact ⟨hi.held hs, hi.addressed hs⟩

/-- Two hosts, a socket on each. -/
def twoSockets : List Op :=
  [.host (.v4 1) 2 49152 65535, .host (.v4 2) 2 49152 65535, .bind (.v4 1) ⟨.v4 0, 10⟩,
    .bind (.v4 2) ⟨.v4 0, 0⟩]

/-- The second datagram overtakes the first, and the third is lost. -/
def overtaking : List Op :=
  twoSockets ++ [.send (.v4 2) 49152 ⟨.v4 1, 10⟩ [1], .send (.v4 2) 49152 ⟨.v4 1, 10⟩ [2],
    .send (.v4 2) 49152 ⟨.v4 1, 10⟩ [3], .deliver 1, .deliver 0, .lose 0, .readable (.v4 1) 10,
    .tryRecvFrom (.v4 1) 10 8]

theorem datagrams_arrive_once_overtaking : ∃ w tr, new.run overtaking = .ok (w, tr)
    ∧ (returnedOn 0 tr <+: (acceptedOn 0 tr).map Packet.content)
    ∧ returnedOn 0 tr = [([2], ⟨.v4 2, 49152⟩)] := by
  obtain ⟨w, tr, h, hret⟩ : ∃ w tr, new.run overtaking = .ok (w, tr)
      ∧ returnedOn 0 tr = [([2], ⟨.v4 2, 49152⟩)] := ⟨_, _, rfl, by decide⟩
  exact ⟨w, tr, h, (datagrams_arrive_once h).2.2.1 0, hret⟩

end World

end Turmoil.Udp
