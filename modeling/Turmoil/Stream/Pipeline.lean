/-
# One direction, end to end

What a sender has sent is a list of numbered segments: the payloads of its writes, and at most one
FIN after them.  `Flows` says where they all are.  Those numbered up to `recvSeq` have passed the
receiving socket: their bytes are what the reader has returned, then its stash, then its channel.
The others are under way, on the link or in the reorder buffer, each once and under its own number.
And a credit is missing for every payload that is under way or in the channel, for no other.

Everything claimed of a stream is read off `Flows`: reads return a prefix of what was written,
because the bytes are laid out in that order; the end is seen only when the FIN has passed; and the
channel is never full, because a payload that is still under way has its own credit.
-/
import Turmoil.Stream.Connection

namespace Turmoil.Stream

/-! ## 1. Readers -/

namespace Reader

/-- The bytes a reader can still return without another delivery. -/
def unread (r : Reader) : Bytes := r.rx.buffer.getD [] ++ r.channel.queue.flatten

/-- A reader between calls: its stash and its segments are not empty, and once it has seen the end
there is nothing left. -/
structure Ok (held : Bool) (r : Reader) : Prop where
  stash : r.rx.buffer ≠ some []
  queue : ∀ b ∈ r.channel.queue, b ≠ []
  closed : r.rx.isClosed = true → held = false ∧ r.rx.buffer = none ∧ r.channel.queue = []

/-- A call that returned `out`: the bytes go from the reader to the caller, and a credit comes back
for every segment that left the channel. -/
structure Returns (r r' : Reader) (out : Bytes) : Prop where
  bytes : out ++ r'.unread = r.unread
  credit : r'.credits + r'.channel.queue.length = r.credits + r.channel.queue.length
  receiver : r'.channel.receiver = r.channel.receiver
  capacity : r'.channel.capacity = r.channel.capacity
  closed : r.rx.isClosed = true → r'.rx.isClosed = true

variable {r r' r'' : Reader} {held : Bool} {state : StreamState}

theorem Returns.refl (r : Reader) : Returns r r [] := ⟨rfl, rfl, rfl, rfl, id⟩

theorem Returns.trans {out out' : Bytes} (h : Returns r r' out) (h' : Returns r' r'' out') :
    Returns r r'' (out ++ out') where
  bytes := by rw [List.append_assoc, h'.bytes, h.bytes]
  credit := h'.credit.trans h.credit
  receiver := h'.receiver.trans h.receiver
  capacity := h'.capacity.trans h.capacity
  closed := fun hc => h'.closed (h.closed hc)

theorem take_eq_none (h : r.take = none) : r.channel.queue = [] := by
  unfold take at h
  split at h
  · assumption
  · cases h

/-- Taking a segment into the stash changes who holds the bytes, and gives a credit back. -/
theorem take_spec {bytes : Bytes} (hok : r.Ok held) (hbuf : r.rx.buffer = none)
    (h : r.take = some (r', bytes)) :
    Returns r { r' with rx := { r'.rx with buffer := some bytes } } [] ∧ bytes ≠ []
      ∧ r'.rx = r.rx ∧ (∀ b ∈ r'.channel.queue, b ≠ []) ∧ r.rx.isClosed = false
      ∧ r'.channel.queue.length + 1 = r.channel.queue.length := by
  unfold take at h
  split at h
  · cases h
  · rename_i queue hq
    cases h
    refine ⟨⟨?_, ?_, rfl, rfl, id⟩, hok.queue _ (by simp [hq]), rfl,
      fun b hb => hok.queue b (by simp [hq, hb]), ?_, by simp [hq]⟩
    · simp [unread, hbuf, hq]
    · simp only [hq, List.length_cons]
      omega
    · cases hc : r.rx.isClosed with
      | false => rfl
      | true =>
        have := (hok.closed hc).2.2
        rw [hq] at this
        cases this

/-- `poll_fill` returns nothing and loses nothing; when it is done, there is a stash or the end was
seen. -/
theorem pollFill_spec (hok : r.Ok held) {res : Poll Unit} (h : r.pollFill held state = (r', res)) :
    Returns r r' [] ∧ r'.Ok held
      ∧ (res = .ready () → r'.rx.buffer = none → r'.rx.isClosed = true)
      ∧ (∀ b, r.rx.buffer = some b → r'.rx.buffer = some b ∧ res = .ready ()) := by
  unfold pollFill at h
  split at h
  · rename_i hdone
    cases h
    refine ⟨Returns.refl r, hok, fun _ hnone => ?_, fun b hb => ⟨hb, rfl⟩⟩
    simpa [hnone] using hdone
  · rename_i hdone
    simp only [Bool.or_eq_true, not_or, Bool.not_eq_true, Option.isSome_eq_false_iff,
      Option.isNone_iff_eq_none] at hdone
    have hnone : ∀ b, r.rx.buffer = some b → False := fun b hb => by
      rw [hdone.2] at hb
      cases hb
    split at h
    · rename_i r1 bytes ht
      cases h
      obtain ⟨hret, hne, hrx, hqueue, hopen, -⟩ := take_spec hok hdone.2 ht
      refine ⟨hret, ⟨fun hb => hne (Option.some.inj hb), hqueue, fun hc => ?_⟩, fun _ hb => ?_,
        fun b hb => absurd hb (hnone b)⟩
      · rw [hrx] at hc
        rw [hopen] at hc
        cases hc
      · cases hb
    · rename_i ht
      have hq := take_eq_none ht
      split at h
      · cases h
        exact ⟨Returns.refl r, hok, fun h => (by cases h), fun b hb => absurd hb (hnone b)⟩
      · rename_i hheld
        split at h
        · cases h
          refine ⟨⟨rfl, rfl, rfl, rfl, fun _ => rfl⟩, ⟨hok.stash, hok.queue, fun _ => ?_⟩,
            fun _ _ => rfl,
            fun b hb => absurd hb (hnone b)⟩
          exact ⟨eq_false_of_ne_true hheld, hdone.2, hq⟩
        · cases h
          exact ⟨Returns.refl r, hok, fun h => (by cases h), fun b hb => absurd hb (hnone b)⟩

theorem putSlice_spec {avail put : Bytes} {remaining : Nat} {rest : Option Bytes}
    (h : putSlice avail remaining = (rest, put)) :
    put = avail.take (min avail.length remaining) ∧ put ++ rest.getD [] = avail ∧ rest ≠ some [] := by
  unfold putSlice at h
  cases h
  refine ⟨rfl, ?_, ?_⟩
  · split
    · rename_i hemp
      rw [List.isEmpty_iff] at hemp
      conv_rhs => rw [← List.take_append_drop (min avail.length remaining) avail, hemp]
      rfl
    · exact List.take_append_drop _ _
  · split
    · exact fun h => by cases h
    · rename_i hne
      exact fun h => hne (by rw [Option.some.inj h]; rfl)

/-- What a done read returns, and that nothing is lost. -/
theorem pollRead_spec (hok : r.Ok held) {filled remaining : Nat} {res : Poll Bytes}
    (h : r.pollRead held state filled remaining = (r', res)) :
    r'.Ok held ∧ (∀ out, res = .ready out → Returns r r' out
        ∧ (out = [] → 0 < remaining → r'.rx.isClosed = true))
      ∧ ((∀ out, res ≠ .ready out) → Returns r r' [])
      ∧ ∀ b, r.rx.buffer = some b → 0 < filled + remaining →
          res = .ready (b.take (min b.length remaining)) := by
  unfold pollRead at h
  split at h
  · rename_i hcap
    cases h
    refine ⟨hok, fun out hout => ?_, fun hno => absurd rfl (hno []), fun b _ hpos => by omega⟩
    cases hout
    exact ⟨Returns.refl r, fun _ _ => by omega⟩
  · split at h
    · rename_i r1 hfill
      obtain ⟨hret, hok1, hdone, hkeep⟩ := pollFill_spec hok hfill
      split at h
      · rename_i bytes hbuf
        generalize hput : putSlice bytes remaining = p at h
        obtain ⟨rest, put⟩ := p
        cases h
        obtain ⟨rfl, hrest, hne⟩ := putSlice_spec hput
        refine ⟨⟨hne, hok1.queue, fun hc => ?_⟩, fun out hout => ?_, fun hno => absurd rfl (hno _),
          fun b hb _ => ?_⟩
        · have := (hok1.closed hc).2.1
          rw [hbuf] at this
          cases this
        · cases hout
          refine ⟨⟨?_, hret.credit, hret.receiver, hret.capacity, hret.closed⟩, fun hnil hpos => ?_⟩
          · have hbytes := congrArg (· ++ r1.channel.queue.flatten) hrest
            rw [← hret.bytes, unread, unread, hbuf, Option.getD_some, List.nil_append]
            exact (List.append_assoc _ _ _).symm.trans hbytes
          · have hzero := congrArg List.length hnil
            rw [List.length_take, List.length_nil] at hzero
            have hb : bytes = [] := List.length_eq_zero_iff.mp (by omega)
            exact absurd (hb ▸ hbuf) hok1.stash
        · have hb1 := (hkeep b hb).1
          rw [hbuf] at hb1
          cases hb1
          rfl
      · rename_i hbuf
        cases h
        have hclosed := hdone rfl hbuf
        refine ⟨hok1, fun out hout => ?_, fun hno => absurd rfl (hno []), fun b hb _ => ?_⟩
        · cases hout
          exact ⟨hret, fun _ _ => hclosed⟩
        · rw [(hkeep b hb).1] at hbuf
          cases hbuf
    · rename_i r1 hfill
      cases h
      obtain ⟨hret, hok1, -, hkeep⟩ := pollFill_spec hok hfill
      exact ⟨hok1, fun out hout => (by cases hout), fun _ => hret,
        fun b hb _ => (by cases (hkeep b hb).2)⟩
    · rename_i r1 e hfill
      cases h
      obtain ⟨hret, hok1, -, hkeep⟩ := pollFill_spec hok hfill
      exact ⟨hok1, fun out hout => (by cases hout), fun _ => hret,
        fun b hb _ => (by cases (hkeep b hb).2)⟩

/-- A peek returns the head of the stash and leaves everything where it is. -/
theorem pollPeek_spec (hok : r.Ok held) {filled remaining : Nat} {res : Poll Bytes}
    (h : r.pollPeek held state filled remaining = (r', res)) :
    r'.Ok held ∧ Returns r r' []
      ∧ (∀ b, r.rx.buffer = some b → r'.rx.buffer = some b)
      ∧ ∀ out, res = .ready out → (out = [] → 0 < remaining → r'.rx.isClosed = true)
        ∧ (out ≠ [] → ∃ b, r'.rx.buffer = some b ∧ out = b.take (min b.length remaining)) := by
  unfold pollPeek at h
  split at h
  · rename_i hcap
    cases h
    refine ⟨hok, Returns.refl r, fun b hb => hb, fun out hout => ?_⟩
    cases hout
    exact ⟨fun _ _ => by omega, fun hne => absurd rfl hne⟩
  · split at h
    · rename_i r1 hfill
      obtain ⟨hret, hok1, hdone, hkeep⟩ := pollFill_spec hok hfill
      split at h
      · rename_i bytes hbuf
        cases h
        refine ⟨hok1, hret, fun b hb => (hkeep b hb).1, fun out hout => ?_⟩
        cases hout
        refine ⟨fun hnil hpos => ?_, fun _ => ⟨bytes, hbuf, rfl⟩⟩
        have hzero := congrArg List.length hnil
        rw [List.length_take, List.length_nil] at hzero
        have hb : bytes = [] := List.length_eq_zero_iff.mp (by omega)
        exact absurd (hb ▸ hbuf) hok1.stash
      · rename_i hbuf
        cases h
        refine ⟨hok1, hret, fun b hb => (hkeep b hb).1, fun out hout => ?_⟩
        cases hout
        exact ⟨fun _ _ => hdone rfl hbuf, fun hne => absurd rfl hne⟩
    · rename_i r1 hfill
      cases h
      obtain ⟨hret, hok1, -, hkeep⟩ := pollFill_spec hok hfill
      exact ⟨hok1, hret, fun b hb => (hkeep b hb).1, fun out hout => by cases hout⟩
    · rename_i r1 e hfill
      cases h
      obtain ⟨hret, hok1, -, hkeep⟩ := pollFill_spec hok hfill
      exact ⟨hok1, hret, fun b hb => (hkeep b hb).1, fun out hout => by cases hout⟩

/-- The inner loop copies what fits. -/
theorem copyInto_spec : ∀ (rooms : List Nat) (bytes : Bytes),
    (copyInto rooms bytes).2.2 = bytes.take rooms.sum
      ∧ (copyInto rooms bytes).2.1 = bytes.drop rooms.sum
      ∧ (bytes ≠ [] → (copyInto rooms bytes).1 ≠ [] → (copyInto rooms bytes).2.1 = [])
  | [], bytes => by simp [copyInto]
  | room :: rooms, bytes => by
    have ih := copyInto_spec rooms (bytes.drop (min bytes.length room))
    unfold copyInto
    dsimp only
    split
    · rename_i hemp
      rw [List.isEmpty_iff, List.drop_eq_nil_iff] at hemp
      have hle : bytes.length ≤ room := by omega
      refine ⟨?_, ?_, fun _ _ => ?_⟩
      · rw [List.take_of_length_le hemp, List.take_of_length_le (by simp; omega)]
      · rw [List.drop_eq_nil_iff.mpr hemp, List.drop_eq_nil_iff.mpr (by simp; omega)]
      · exact List.drop_eq_nil_iff.mpr hemp
    · rename_i hne
      rw [List.isEmpty_iff] at hne
      have hroom : min bytes.length room = room := by
        by_contra hlt
        exact hne (List.drop_eq_nil_iff.mpr (by omega))
      rw [hroom] at ih hne ⊢
      refine ⟨?_, ?_, fun _ => ih.2.2 hne⟩
      · rw [ih.1, List.sum_cons, List.take_add]
      · rw [ih.2.1, List.sum_cons, List.drop_drop]

theorem stash_getD (r : Reader) (rest : Bytes) : (r.stash rest).rx.buffer.getD [] = rest := by
  unfold stash
  cases rest <;> rfl

theorem stash_ne (r : Reader) (rest : Bytes) : (r.stash rest).rx.buffer ≠ some [] := by
  unfold stash
  cases rest with
  | nil => exact fun h => by cases h
  | cons b rest => exact fun h => by cases h

/-- One turn of the outer loop copies from the stash; room is left only when the stash is used up. -/
theorem copyInto_returns {bytes : Bytes} (hok : r.Ok held) (hbuf : r.rx.buffer = some bytes)
    (rooms : List Nat) :
    Returns r (r.stash (copyInto rooms bytes).2.1) (bytes.take rooms.sum)
      ∧ (r.stash (copyInto rooms bytes).2.1).Ok held
      ∧ ((copyInto rooms bytes).1 ≠ [] →
        (r.stash (copyInto rooms bytes).2.1).rx.buffer = none ∧ bytes.take rooms.sum = bytes) := by
  obtain ⟨-, hleft, hroom⟩ := copyInto_spec rooms bytes
  have hne : bytes ≠ [] := fun h => hok.stash (h ▸ hbuf)
  refine ⟨⟨?_, rfl, rfl, rfl, id⟩, ⟨stash_ne _ _, hok.queue, fun hc => ?_⟩, fun hrooms => ⟨?_, ?_⟩⟩
  · rw [unread, stash_getD, hleft, ← List.append_assoc, List.take_append_drop, unread, hbuf]
    rfl
  · have := (hok.closed hc).2.1
    rw [hbuf] at this
    cases this
  · rw [hroom hne hrooms]
    rfl
  · have hnil := hroom hne hrooms
    rw [hleft, List.drop_eq_nil_iff] at hnil
    exact List.take_of_length_le hnil

/-- The outer loop: what it has copied so far is the head of what it returns, and it fails only
when there was nothing to copy. -/
theorem readLoop_spec : ∀ (fuel : Nat) {r r' : Reader} {rooms : List Nat} {out : Bytes}
    {res : Except ReadError Bytes}, r.Ok held →
    r.channel.queue.length + (if r.rx.buffer.isSome then 1 else 0) + 1 ≤ fuel →
    readLoop held state fuel r rooms out = (r', res) →
    r'.Ok held ∧ (∀ res', res = .ok res' → (∃ more, res' = out ++ more ∧ Returns r r' more)
        ∧ (res' = [] → 0 < rooms.sum → r'.rx.isClosed = true))
      ∧ (∀ e, res = .error e → out = [] ∧ Returns r r' [])
      ∧ ∀ b, r.rx.buffer = some b → ∃ res', res = .ok res' ∧ out ++ b.take rooms.sum <+: res' := by
  intro fuel
  induction fuel with
  | zero => exact fun {r r' rooms out res} _ hfuel _ => by omega
  | succ fuel ih =>
    intro r r' rooms out res hok hfuel h
    -- a turn with `bytes` in the stash, whether it was there or was just taken from the channel
    have hturn : ∀ (rb : Reader) (bytes : Bytes), rb.rx.buffer = some bytes → rb.Ok held →
        Returns r rb [] → rb.channel.queue.length + 1 ≤ fuel →
        (if (copyInto rooms bytes).1.isEmpty then
          (rb.stash (copyInto rooms bytes).2.1, Except.ok (out ++ (copyInto rooms bytes).2.2))
        else readLoop held state fuel (rb.stash (copyInto rooms bytes).2.1)
          (copyInto rooms bytes).1 (out ++ (copyInto rooms bytes).2.2)) = (r', res) →
        r'.Ok held ∧ ∃ res', res = .ok res' ∧ (∃ more, res' = out ++ more ∧ Returns r r' more)
          ∧ out ++ bytes.take rooms.sum <+: res' := by
      intro rb bytes hbuf hokb hretb hfuelb hrun
      obtain ⟨hret, hok1, hroom⟩ := copyInto_returns hokb hbuf rooms
      rw [(copyInto_spec rooms bytes).1] at hrun
      split at hrun
      · cases hrun
        exact ⟨hok1, _, rfl, ⟨_, rfl, hretb.trans hret⟩, List.prefix_rfl⟩
      · rename_i hrooms
        obtain ⟨hnone, hall⟩ := hroom fun h => hrooms (by rw [h]; rfl)
        obtain ⟨hok', hres, herr, -⟩ := ih hok1 (by rw [hnone]; exact hfuelb) hrun
        refine ⟨hok', ?_⟩
        cases res with
        | error e =>
          have hout := (herr e rfl).1
          rw [hall] at hout
          have hb : bytes = [] := (List.append_eq_nil_iff.mp hout).2
          exact absurd (hb ▸ hbuf) hokb.stash
        | ok res' =>
          obtain ⟨⟨more, rfl, hmore⟩, -⟩ := hres res' rfl
          refine ⟨_, rfl, ⟨bytes.take rooms.sum ++ more, List.append_assoc _ _ _, ?_⟩,
            List.prefix_append _ _⟩
          exact hretb.trans (hret.trans hmore)
    have hended : ∀ bytes : Bytes, bytes ≠ [] →
        (r'.Ok held ∧ ∃ res', res = .ok res' ∧ (∃ more, res' = out ++ more ∧ Returns r r' more)
          ∧ out ++ bytes.take rooms.sum <+: res') →
        r'.Ok held ∧ (∀ res', res = .ok res' → (∃ more, res' = out ++ more ∧ Returns r r' more)
            ∧ (res' = [] → 0 < rooms.sum → r'.rx.isClosed = true))
          ∧ (∀ e, res = .error e → out = [] ∧ Returns r r' []) := by
      rintro bytes hne ⟨hok', res', rfl, hmore, hpre⟩
      refine ⟨hok', fun res'' heq => ?_, fun e he => by cases he⟩
      cases heq
      refine ⟨hmore, fun hnil hpos => ?_⟩
      rw [hnil, List.prefix_nil, List.append_eq_nil_iff, List.take_eq_nil_iff] at hpre
      rcases hpre.2 with h0 | h0
      · omega
      · exact absurd h0 hne
    rw [readLoop] at h
    split at h
    · rename_i hclosed
      cases h
      refine ⟨hok, fun res' heq => ?_, fun e he => (by cases he), fun b hb => ?_⟩
      · cases heq
        exact ⟨⟨[], (List.append_nil _).symm, Returns.refl r⟩, fun _ _ => hclosed⟩
      · have := (hok.closed hclosed).2.1
        rw [hb] at this
        cases this
    · dsimp only at h
      split at h
      · rename_i bytes hbuf
        rw [hbuf] at hfuel
        have hdone := hturn r bytes hbuf hok (Returns.refl r) (by simpa using hfuel) h
        obtain ⟨h1, h2, h3⟩ := hended bytes (fun hb => hok.stash (hb ▸ hbuf)) hdone
        refine ⟨h1, h2, h3, fun b hb => ?_⟩
        rw [hbuf] at hb
        cases hb
        obtain ⟨-, res', hres, -, hpre⟩ := hdone
        exact ⟨res', hres, hpre⟩
      · rename_i hbuf
        have hnone : ∀ b, r.rx.buffer = some b → False := fun b hb => by
          rw [hbuf] at hb
          cases hb
        split at h
        · rename_i r1 bytes ht
          obtain ⟨hret, hne, hrx, hqueue, hopen, hlen⟩ := take_spec hok hbuf ht
          have hdone := hturn { r1 with rx := { r1.rx with buffer := some bytes } } bytes rfl
            ⟨fun hb => hne (Option.some.inj hb), hqueue, fun hc => by
              rw [hrx] at hc
              rw [hopen] at hc
              cases hc⟩ hret (by simp only [hbuf] at hfuel; simp at hfuel; simp; omega) h
          obtain ⟨h1, h2, h3⟩ := hended bytes hne hdone
          exact ⟨h1, h2, h3, fun b hb => absurd hb (hnone b)⟩
        · rename_i ht
          have hq := take_eq_none ht
          split at h
          · rename_i hout
            cases h
            refine ⟨hok, fun res' heq => ?_, fun e he => (by cases he), fun b hb => absurd hb (hnone b)⟩
            cases heq
            refine ⟨⟨[], (List.append_nil _).symm, Returns.refl r⟩, fun hnil _ => ?_⟩
            rw [hnil] at hout
            cases hout
          · rename_i hout
            have hnil : out = [] := by simpa using hout
            split at h
            · cases h
              refine ⟨hok, fun res' heq => (by cases heq), fun e he => ⟨hnil, Returns.refl r⟩,
                fun b hb => absurd hb (hnone b)⟩
            · rename_i hheld
              split at h
              · cases h
                refine ⟨⟨hok.stash, hok.queue, fun _ => ⟨eq_false_of_ne_true hheld, hbuf, hq⟩⟩,
                  fun res' heq => ?_, fun e he => (by cases he), fun b hb => absurd hb (hnone b)⟩
                cases heq
                exact ⟨⟨[], (List.append_nil _).symm, ⟨rfl, rfl, rfl, rfl, fun _ => rfl⟩⟩, fun _ _ => rfl⟩
              · cases h
                refine ⟨hok, fun res' heq => (by cases heq), fun e he => ⟨hnil, Returns.refl r⟩,
                  fun b hb => absurd hb (hnone b)⟩

end Reader

/-! ## 2. One direction -/

/-- The segments a side has sent, by number: its payloads, then its FIN. -/
def sent (payloads : List Bytes) (fin : Bool) : List SequencedSegment :=
  payloads.map .data ++ if fin then [.fin] else []

def SequencedSegment.isData : SequencedSegment → Bool
  | .data _ => true
  | .fin => false

/-- Where the segments of one direction are. -/
structure Flows (capacity : Nat) (payloads : List Bytes) (fin : Bool) (returned : Bytes)
    (nextSendSeq : Nat) (under : List (Nat × SequencedSegment)) (recvSeq : Nat) (held : Bool)
    (r : Reader) : Prop where
  next : nextSendSeq = (sent payloads fin).length + 1
  nonempty : ∀ b ∈ payloads, b ≠ []
  numbered : ∀ p ∈ under, recvSeq < p.1 ∧ (sent payloads fin)[p.1 - 1]? = some p.2
  nodup : (under.map Prod.fst).Nodup
  passed : recvSeq ≤ (sent payloads fin).length
  sender : held = true ↔ recvSeq ≤ payloads.length
  bytes : returned ++ r.unread = (payloads.take recvSeq).flatten
  reader : r.Ok held
  receiver : r.channel.receiver = true
  room : r.channel.capacity = capacity
  credit : r.credits + under.countP (fun p => p.2.isData) + r.channel.queue.length = capacity

namespace Flows

variable {capacity nextSendSeq recvSeq : Nat} {payloads : List Bytes} {fin held : Bool}
  {returned : Bytes} {under under' : List (Nat × SequencedSegment)} {r r' : Reader}

theorem reorder (h : Flows capacity payloads fin returned nextSendSeq under recvSeq held r)
    (hp : under'.Perm under) :
    Flows capacity payloads fin returned nextSendSeq under' recvSeq held r where
  next := h.next
  nonempty := h.nonempty
  numbered := fun p hp' => h.numbered p (hp.mem_iff.mp hp')
  nodup := ((hp.map Prod.fst).nodup_iff).mpr h.nodup
  passed := h.passed
  sender := h.sender
  bytes := h.bytes
  reader := h.reader
  receiver := h.receiver
  room := h.room
  credit := by rw [hp.countP_eq]; exact h.credit

/-- A number that was sent is below the next one. -/
theorem under_lt (h : Flows capacity payloads fin returned nextSendSeq under recvSeq held r)
    {p : Nat × SequencedSegment} (hp : p ∈ under) : p.1 < nextSendSeq := by
  obtain ⟨hlt, hget⟩ := h.numbered p hp
  have := (List.getElem?_eq_some_iff.mp hget).1
  rw [h.next]
  omega

/-- Another segment is sent.  A payload has taken its credit before. -/
theorem send (h : Flows capacity payloads fin returned nextSendSeq under recvSeq held r)
    {payloads' : List Bytes} {fin' : Bool} {credits : Nat} (segment : SequencedSegment)
    (hsent : sent payloads' fin' = sent payloads fin ++ [segment])
    (hpay : ∃ more, payloads' = payloads ++ more) (hne : ∀ b ∈ payloads', b ≠ [])
    (hopen : fin = false)
    (hcredit : credits + (if segment.isData then 1 else 0) = r.credits) :
    Flows capacity payloads' fin' returned (nextSendSeq + 1) (under ++ [(nextSendSeq, segment)])
      recvSeq held { r with credits := credits } := by
  have hlen : (sent payloads fin).length = payloads.length := by simp [sent, hopen]
  have hpassed : recvSeq ≤ payloads.length := hlen ▸ h.passed
  obtain ⟨more, rfl⟩ := hpay
  constructor
  · rw [hsent, List.length_append, List.length_singleton, h.next]
  · exact hne
  · intro p hp
    rcases List.mem_append.mp hp with hp | hp
    · obtain ⟨hlt, hget⟩ := h.numbered p hp
      refine ⟨hlt, ?_⟩
      rw [hsent, List.getElem?_append_left (List.getElem?_eq_some_iff.mp hget).1]
      exact hget
    · rw [List.mem_singleton.mp hp]
      dsimp only
      rw [hsent, h.next]
      refine ⟨by have := h.passed; omega, ?_⟩
      simp
  · rw [List.map_append, List.map_singleton]
    refine List.nodup_append.mpr ⟨h.nodup, List.nodup_singleton _, ?_⟩
    intro a ha b hb
    obtain ⟨p, hp, rfl⟩ := List.mem_map.mp ha
    rw [List.mem_singleton.mp hb]
    exact Nat.ne_of_lt (h.under_lt hp)
  · rw [hsent, List.length_append]
    exact Nat.le_add_right_of_le h.passed
  · rw [h.sender, List.length_append]
    exact ⟨fun _ => by omega, fun _ => hpassed⟩
  · rw [List.take_append_of_le_length hpassed]
    exact h.bytes
  · exact ⟨h.reader.stash, h.reader.queue, h.reader.closed⟩
  · exact h.receiver
  · exact h.room
  · have hc := h.credit
    rw [List.countP_append, List.countP_singleton]
    dsimp only
    omega

/-- A read returns bytes. -/
theorem read (h : Flows capacity payloads fin returned nextSendSeq under recvSeq held r) {out : Bytes}
    (hret : Reader.Returns r r' out) (hok : r'.Ok held) :
    Flows capacity payloads fin (returned ++ out) nextSendSeq under recvSeq held r' where
  next := h.next
  nonempty := h.nonempty
  numbered := h.numbered
  nodup := h.nodup
  passed := h.passed
  sender := h.sender
  bytes := by rw [List.append_assoc, hret.bytes, h.bytes]
  reader := hok
  receiver := hret.receiver.trans h.receiver
  room := hret.capacity.trans h.room
  credit := by
    have h1 := h.credit
    have h2 := hret.credit
    omega

/-- Once the reader has seen the end, it has returned everything there was. -/
theorem ended (h : Flows capacity payloads fin returned nextSendSeq under recvSeq held r)
    (hclosed : r.rx.isClosed = true) : fin = true ∧ returned = payloads.flatten := by
  obtain ⟨hheld, hbuf, hqueue⟩ := h.reader.closed hclosed
  have hlt : payloads.length < recvSeq := by
    have := mt h.sender.mpr (by rw [hheld]; decide)
    omega
  constructor
  · have hp := h.passed
    cases fin with
    | true => rfl
    | false =>
      simp only [sent, Bool.false_eq_true, if_false, List.append_nil, List.length_map] at hp
      omega
  · have hb := h.bytes
    rw [Reader.unread, hbuf, hqueue, List.take_of_length_le (Nat.le_of_lt hlt)] at hb
    simpa using hb

/-- Once everything that was written has been returned, only the FIN can be under way: every payload has
a byte, so each of them has passed. -/
theorem drained (h : Flows capacity payloads fin returned nextSendSeq under recvSeq held r)
    (hall : returned = payloads.flatten) : r.rx.buffer = none ∧ r.channel.queue = []
      ∧ ∀ p ∈ under, p.2 = .fin := by
  have hb := h.bytes
  have hsplit : (payloads.take recvSeq).flatten ++ (payloads.drop recvSeq).flatten
      = payloads.flatten := by
    rw [← List.flatten_append, List.take_append_drop]
  rw [hall, ← hsplit, List.append_assoc] at hb
  obtain ⟨hdrop, hunread⟩ := List.append_eq_nil_iff.mp (List.append_right_eq_self.mp hb)
  obtain ⟨hbuf, hqueue⟩ := List.append_eq_nil_iff.mp hunread
  have hpassed : payloads.length ≤ recvSeq := by
    refine List.drop_eq_nil_iff.mp (List.eq_nil_iff_forall_not_mem.mpr fun b hb => ?_)
    exact h.nonempty b (List.mem_of_mem_drop hb) (List.flatten_eq_nil_iff.mp hdrop b hb)
  refine ⟨?_, ?_, fun p hp => ?_⟩
  · cases hstash : r.rx.buffer with
    | none => rfl
    | some b =>
      rw [hstash] at hbuf
      exact absurd (hstash.trans (congrArg some hbuf)) h.reader.stash
  · refine List.eq_nil_iff_forall_not_mem.mpr fun b hb => ?_
    exact h.reader.queue b hb (List.flatten_eq_nil_iff.mp hqueue b hb)
  · obtain ⟨hlt, hget⟩ := h.numbered p hp
    rw [sent, List.getElem?_append_right (by rw [List.length_map]; omega)] at hget
    have hmem := List.mem_of_getElem? hget
    split at hmem
    · exact List.mem_singleton.mp hmem
    · cases hmem

theorem prefix_written (h : Flows capacity payloads fin returned nextSendSeq under recvSeq held r) :
    returned <+: payloads.flatten := by
  have hb : returned <+: (payloads.take recvSeq).flatten := ⟨r.unread, h.bytes⟩
  refine hb.trans ⟨(payloads.drop recvSeq).flatten, ?_⟩
  rw [← List.flatten_append, List.take_append_drop]

/-- The next expected segment passes to the reader: a payload through the channel, whose credit makes
sure of a place in it, and a FIN by dropping the sender. -/
theorem pass {segment : SequencedSegment}
    (h : Flows capacity payloads fin returned nextSendSeq ((recvSeq + 1, segment) :: under) recvSeq held r) :
    held = true ∧ match segment with
      | .data bytes => ∃ channel, r.channel.trySend bytes = .ok channel
        ∧ Flows capacity payloads fin returned nextSendSeq under (recvSeq + 1) true
            { r with channel := channel }
      | .fin => Flows capacity payloads fin returned nextSendSeq under (recvSeq + 1) false r := by
  obtain ⟨-, hget⟩ := h.numbered (recvSeq + 1, segment) (by simp)
  rw [Nat.add_sub_cancel] at hget
  have hnodup := List.nodup_cons.mp h.nodup
  -- the others have greater numbers
  have hrest : ∀ p ∈ under, recvSeq + 1 < p.1 ∧ (sent payloads fin)[p.1 - 1]? = some p.2 := by
    intro p hp
    obtain ⟨hlt, hp'⟩ := h.numbered p (List.mem_cons_of_mem _ hp)
    have hne : p.1 ≠ recvSeq + 1 := fun he => hnodup.1 (List.mem_map.mpr ⟨p, hp, he⟩)
    exact ⟨by omega, hp'⟩
  have hpassed : recvSeq + 1 ≤ (sent payloads fin).length := (List.getElem?_eq_some_iff.mp hget).1
  have hcredit := h.credit
  rw [List.countP_cons] at hcredit
  cases segment with
  | data bytes =>
    have hin : payloads[recvSeq]? = some bytes := by
      unfold sent at hget
      rw [List.getElem?_append, List.length_map] at hget
      split at hget
      · rw [List.getElem?_map] at hget
        obtain ⟨b, hb, heq⟩ := Option.map_eq_some_iff.mp hget
        cases heq
        exact hb
      · split at hget
        · have := List.mem_of_getElem? hget
          simp at this
        · simp at hget
    have hlt := (List.getElem?_eq_some_iff.mp hin).1
    have hheld : held = true := h.sender.mpr (Nat.le_of_lt hlt)
    have hcredit : r.credits + (under.countP (fun p => p.2.isData) + 1) + r.channel.queue.length
        = capacity := hcredit
    refine ⟨hheld, { r.channel with queue := r.channel.queue ++ [bytes] }, ?_, ?_⟩
    · have hroom : ¬ r.channel.queue.length ≥ r.channel.capacity := by
        rw [h.room]
        omega
      simp only [Channel.trySend, h.receiver, Bool.not_true, Bool.false_eq_true, if_false, hroom]
    · constructor
      · exact h.next
      · exact h.nonempty
      · exact hrest
      · exact hnodup.2
      · exact hpassed
      · exact iff_of_true rfl hlt
      · rw [List.take_add_one, hin, List.flatten_append, ← h.bytes, Reader.unread, Reader.unread]
        simp [List.append_assoc]
      · refine ⟨h.reader.stash, fun b hb => ?_, fun hc => ?_⟩
        · rcases List.mem_append.mp hb with hb | hb
          · exact h.reader.queue b hb
          · rw [List.mem_singleton.mp hb]
            exact h.nonempty bytes (List.mem_of_getElem? hin)
        · have := (h.reader.closed hc).1
          rw [hheld] at this
          cases this
      · exact h.receiver
      · exact h.room
      · rw [List.length_append, List.length_singleton]
        dsimp only
        omega
  | fin =>
    have hlen : recvSeq = payloads.length := by
      unfold sent at hget
      rw [List.getElem?_append, List.length_map] at hget
      split at hget
      · rw [List.getElem?_map] at hget
        obtain ⟨b, -, heq⟩ := Option.map_eq_some_iff.mp hget
        cases heq
      · have hle := hpassed
        simp only [sent, List.length_append, List.length_map] at hle
        split at hle
        · simp at hle
          omega
        · simp at hle
          omega
    have hheld : held = true := h.sender.mpr (by omega)
    refine ⟨hheld, ?_⟩
    constructor
    · exact h.next
    · exact h.nonempty
    · exact hrest
    · exact hnodup.2
    · exact hpassed
    · exact iff_of_false (by decide) (by omega)
    · rw [h.bytes, List.take_of_length_le (by omega), List.take_of_length_le (by omega)]
    · refine ⟨h.reader.stash, h.reader.queue, fun hc => ⟨rfl, (h.reader.closed hc).2⟩⟩
    · exact h.receiver
    · exact h.room
    · exact hcredit

/-- **Reordering**: every segment in order passes, and the channel takes it. -/
theorem bufferLoop (link : List (Nat × SequencedSegment)) : ∀ (fuel : Nat) {s s' : StreamSocket}
    {channel : Channel} {r : Reader} {outcome : Buffered},
    Flows capacity payloads fin returned nextSendSeq (link ++ s.buf.entries) s.recvSeq s.sender r →
    StreamSocket.bufferLoop fuel s r.channel = (s', channel, outcome) →
    Flows capacity payloads fin returned nextSendSeq (link ++ s'.buf.entries) s'.recvSeq s'.sender
        { r with channel := channel }
      ∧ outcome = .upToDate ∧ s'.nextSendSeq = s.nextSendSeq ∧ s'.refCt = s.refCt := by
  intro fuel
  induction fuel with
  | zero =>
    intro s s' channel r outcome h hrun
    cases hrun
    exact ⟨h, rfl, rfl, rfl⟩
  | succ fuel ih =>
    intro s s' channel r outcome h hrun
    rw [StreamSocket.bufferLoop] at hrun
    split at hrun
    · cases hrun
      exact ⟨h, rfl, rfl, rfl⟩
    · rename_i segment hget
      have hperm : ((s.recvSeq + 1, segment) :: (link ++ (s.buf.swapRemove (s.recvSeq + 1)).entries)).Perm
          (link ++ s.buf.entries) :=
        List.perm_middle.symm.trans ((IndexMap.swapRemove_entries_perm hget).append_left link)
      obtain ⟨hheld, hpass⟩ := (h.reorder hperm).pass
      dsimp only at hrun
      rw [hheld] at hrun
      simp only [Bool.not_true, Bool.false_eq_true, if_false] at hrun
      cases segment with
      | data bytes =>
        obtain ⟨channel1, hsend, hflows⟩ := hpass
        simp only [hsend] at hrun
        exact ih (s := { s with buf := s.buf.swapRemove (s.recvSeq + 1), recvSeq := s.recvSeq + 1, sender := true }) (r := { r with channel := channel1 }) hflows hrun
      | fin =>
        simp only [h.receiver, Bool.not_true, Bool.false_eq_true, if_false] at hrun
        exact ih (s := { s with buf := s.buf.swapRemove (s.recvSeq + 1), recvSeq := s.recvSeq + 1, sender := false }) hpass hrun

/-- A delivery: the segment leaves the link, is no duplicate, and finds its place. -/
theorem buffer {link : List (Nat × SequencedSegment)} {s : StreamSocket} {i seq : Nat}
    {segment : SequencedSegment}
    (h : Flows capacity payloads fin returned nextSendSeq (link ++ s.buf.entries) s.recvSeq s.sender r)
    (hi : link[i]? = some (seq, segment)) :
    ∃ s' channel, s.buffer r.channel seq segment = some (s', channel, .upToDate)
      ∧ Flows capacity payloads fin returned nextSendSeq (link.eraseIdx i ++ s'.buf.entries)
          s'.recvSeq s'.sender { r with channel := channel }
      ∧ s'.nextSendSeq = s.nextSendSeq ∧ s'.refCt = s.refCt := by
  have hlt := (List.getElem?_eq_some_iff.mp hi).1
  have hlink : ((seq, segment) :: link.eraseIdx i).Perm link := by
    have := List.getElem_cons_eraseIdx_perm hlt
    rwa [(List.getElem?_eq_some_iff.mp hi).2] at this
  have hnew : s.buf.contains seq = false := by
    have hnodup := h.nodup
    rw [List.map_append] at hnodup
    have hdisj := (List.nodup_append.mp hnodup).2.2
    refine IndexMap.contains_eq_false.mpr (IndexMap.lookup_eq_none.mpr fun hmem => ?_)
    exact hdisj seq (List.mem_map.mpr ⟨_, List.mem_of_getElem? hi, rfl⟩) seq hmem rfl
  have hentries := IndexMap.insert_entries_of_not_contains hnew segment
  have hflows : Flows capacity payloads fin returned nextSendSeq
      (link.eraseIdx i ++ (s.buf.insert seq segment).entries) s.recvSeq s.sender r := by
    refine h.reorder ?_
    rw [hentries, ← List.append_assoc]
    exact (List.perm_append_singleton _ _).trans (hlink.append_right _)
  unfold StreamSocket.buffer
  rw [hnew]
  simp only [Bool.false_eq_true, if_false]
  generalize hrun : StreamSocket.bufferLoop (s.buf.insert seq segment).keys.length
    { s with buf := s.buf.insert seq segment } r.channel = res
  obtain ⟨s', channel, outcome⟩ := res
  obtain ⟨hflows', rfl, hnext, href⟩ := Flows.bufferLoop (link.eraseIdx i) _
    (s := { s with buf := s.buf.insert seq segment }) hflows hrun
  exact ⟨s', channel, rfl, hflows', hnext, href⟩

end Flows

end Turmoil.Stream
