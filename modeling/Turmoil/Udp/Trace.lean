/-
# What happens to datagrams

The parts of a trace: what was sent, what is gone, and what a channel accepted and its socket received.

A trace is read in two ways.  For a packet it matters that it is gone, by whichever event; for a
channel only what it accepts and returns.  The last section ties the two together: what all channels
have accepted is a part of what is gone, and how often a channel has returned a datagram is how often
that datagram appears with its number among all that was received.
-/
import Turmoil.Udp.Socket
import Mathlib.Data.List.Perm.Subperm

namespace Turmoil.Udp

open Turmoil.Net (SocketAddr)

/-! ## 1. Parts of a trace -/

/-- What a packet leaves in a queue. -/
def Packet.content (p : Packet) : Datagram × SocketAddr := (p.datagram, p.src)

def sentOf (tr : List Event) : List Packet :=
  tr.filterMap fun
    | .sent p => some p
    | _ => none

/-- The packets that are no longer under way. -/
def goneOf (tr : List Event) : List Packet :=
  tr.filterMap fun
    | .lost p => some p
    | .discarded p => some p
    | .accepted _ p => some p
    | _ => none

def acceptedOn (channel : Nat) (tr : List Event) : List Packet :=
  tr.filterMap fun
    | .accepted c p => if c = channel then some p else none
    | _ => none

/-- The datagrams a socket has received, with their origins. -/
def returnedOn (channel : Nat) (tr : List Event) : List (Datagram × SocketAddr) :=
  tr.filterMap fun
    | .returned c d origin _ => if c = channel then some (d, origin) else none
    | _ => none

/-- All that sockets have received, with their channels. -/
def received (tr : List Event) : List (Nat × Datagram × SocketAddr) :=
  tr.filterMap fun
    | .returned c d origin _ => some (c, d, origin)
    | _ => none

/-- All that channels have accepted. -/
def taken (tr : List Event) : List (Nat × Datagram × SocketAddr) :=
  tr.filterMap fun
    | .accepted c p => some (c, p.content)
    | _ => none

section
variable (channel : Nat) (tr tr' : List Event)

@[simp] theorem sentOf_append : sentOf (tr ++ tr') = sentOf tr ++ sentOf tr' := List.filterMap_append

@[simp] theorem goneOf_append : goneOf (tr ++ tr') = goneOf tr ++ goneOf tr' := List.filterMap_append

@[simp] theorem acceptedOn_append :
    acceptedOn channel (tr ++ tr') = acceptedOn channel tr ++ acceptedOn channel tr' :=
  List.filterMap_append

@[simp] theorem returnedOn_append :
    returnedOn channel (tr ++ tr') = returnedOn channel tr ++ returnedOn channel tr' :=
  List.filterMap_append

theorem acceptedOn_self (p : Packet) : acceptedOn channel [.accepted channel p] = [p] :=
  List.filterMap_cons_some (if_pos rfl)

theorem returnedOn_self (d : Datagram) (origin : SocketAddr) (limit : Nat) :
    returnedOn channel [.returned channel d origin limit] = [(d, origin)] :=
  List.filterMap_cons_some (if_pos rfl)

/-- What a channel has returned is read off event by event: this is the step of the inductions below. -/
theorem returnedOn_cons (e : Event) :
    returnedOn channel (e :: tr) = returnedOn channel [e] ++ returnedOn channel tr :=
  returnedOn_append channel [e] tr

theorem acceptedOn_cons (e : Event) :
    acceptedOn channel (e :: tr) = acceptedOn channel [e] ++ acceptedOn channel tr :=
  acceptedOn_append channel [e] tr

end

/-! ## 2. All channels together -/

section
variable (channel : Nat) (tr : List Event)

/-- A channel's part of all that was received. -/
theorem count_received (x : Datagram × SocketAddr) :
    (received tr).count (channel, x) = (returnedOn channel tr).count x := by
  induction tr with
  | nil => rfl
  | cons e tr ih =>
    rw [returnedOn_cons, List.count_append, ← ih]
    cases e with
    | returned c d origin limit =>
      show ((c, d, origin) :: received tr).count (channel, x) = _
      by_cases hc : c = channel
      · subst hc
        rw [returnedOn_self, List.count_cons, List.count_singleton, Nat.add_comm]
        simp [Prod.ext_iff]
      · rw [List.count_cons_of_ne fun e => hc (congrArg Prod.fst e),
          show returnedOn channel [.returned c d origin limit] = [] from
            List.filterMap_cons_none (if_neg hc), List.count_nil, Nat.zero_add]
    | sent | lost | discarded | accepted | joined | left | closed =>
      exact (Nat.zero_add _).symm

/-- A channel's part of all that was accepted. -/
theorem count_taken (x : Datagram × SocketAddr) :
    (taken tr).count (channel, x) = ((acceptedOn channel tr).map Packet.content).count x := by
  induction tr with
  | nil => rfl
  | cons e tr ih =>
    rw [acceptedOn_cons, List.map_append, List.count_append, ← ih]
    cases e with
    | accepted c p =>
      show ((c, p.content) :: taken tr).count (channel, x) = _
      by_cases hc : c = channel
      · subst hc
        rw [acceptedOn_self, List.map_singleton, List.count_cons, List.count_singleton, Nat.add_comm]
        simp
      · rw [List.count_cons_of_ne fun e => hc (congrArg Prod.fst e),
          show acceptedOn channel [.accepted c p] = [] from
            List.filterMap_cons_none (if_neg hc), List.map_nil, List.count_nil, Nat.zero_add]
    | sent | lost | discarded | returned | joined | left | closed =>
      exact (Nat.zero_add _).symm

/-- What was accepted is no longer under way. -/
theorem taken_sublist : ((taken tr).map Prod.snd).Sublist ((goneOf tr).map Packet.content) := by
  induction tr with
  | nil => exact .refl _
  | cons e tr ih =>
    cases e with
    | accepted c p => exact ih.cons_cons _
    | lost p | discarded p => exact ih.cons _
    | sent | returned | joined | left | closed => exact ih

end

end Turmoil.Udp
