/-
# The indices of the socket table

Four structures speak of the same descriptors: the sockets, the bindings, the connections and the
accept queues of the listeners.  `SocketTable.Consistent` is what a reader expects of them, and
`SocketTable.Tidy` the invariant that carries it: the bindings and the connections are determined by
the sockets (`listed`, `indexed`), a queued child is past its handshake and nobody's, and every
socket fits the handle that holds it.

The invariant speaks of the handles because the removal of a socket is only harmless for a
descriptor that waits in no queue.  It also takes the set of listeners whose queues count: a listener
that is being closed leaves the set before its children are removed.

There are five ways in which a table changes, each with its lemma: a socket is changed in place, a
new one is opened, one is bound, one is connected, one is removed.
-/
import Turmoil.Net.Shim

namespace Turmoil.Net

/-! ## 1. Definitions -/

def BindKey.endpoint (key : BindKey) : SocketAddr := ⟨key.localAddr, key.localPort⟩

/-- The connection of a socket: its local address and its peer. -/
def Socket.tuple? (st : Socket) : Option (SocketAddr × SocketAddr) :=
  st.bound.bind fun key => st.tcb.map fun t => (key.endpoint, t.peer)

theorem Socket.tuple?_eq_some {st : Socket} {p : SocketAddr × SocketAddr} :
    st.tuple? = some p ↔ ∃ key t, st.bound = some key ∧ st.tcb = some t ∧ (key.endpoint, t.peer) = p := by
  unfold tuple?
  cases st.bound <;> cases st.tcb <;> simp

/-- A connection past its handshake that the application has not closed. -/
def Socket.Waiting (st : Socket) : Prop :=
  st.fdClosed = false ∧ ∃ t, st.tcb = some t ∧ t.state.handshake = false

/-- What a socket must be for the calls of a handle. -/
def Socket.Serves (st : Socket) : Handle → Prop
  | .listener => st.listen ≠ none
  | .connecting peer => st.ty = .stream ∧ st.domain = domainOf peer.ip ∧ st.listen = none
      ∧ (st.tcb = none → st.bound = none) ∧ ∀ t, st.tcb = some t → t.state ≠ .synReceived
  | .stream => ∃ t, st.tcb = some t ∧ t.state.handshake = false
  | .udp => st.ty = .dgram ∧ st.bound ≠ none

/-- A socket in good order, for the handle that holds it. -/
structure Socket.Fit (st : Socket) (handle : Option Handle) : Prop where
  key : ∀ key, st.bound = some key →
    key.domain = st.domain ∧ key.ty = st.ty ∧ key.domain = domainOf key.localAddr
  tcb : st.tcb ≠ none → st.ty = .stream ∧ st.bound ≠ none ∧ st.listen = none
  listen : st.listen ≠ none → st.ty = .stream ∧ st.bound ≠ none ∧ st.fdClosed = false
  received : ∀ t, st.tcb = some t → t.state = .synReceived → st.fdClosed = false
  serves : ∀ h, handle = some h → st.fdClosed = false ∧ st.Serves h

namespace SocketTable

/-- **The four indices agree.** -/
structure Consistent (t : SocketTable) : Prop where
  live_binding : ∀ key fd, fd ∈ t.findByBind key → (t.get fd).isSome = true
  live_connection : ∀ l r fd, t.findConnection l r = some fd → (t.get fd).isSome = true
  live_ready : ∀ g c, c ∈ t.ready g → (t.get c).isSome = true
  bound_once : ∀ fd st key, t.get fd = some st → st.bound = some key →
    (t.findByBind key).count fd = 1 ∧ ∀ key', fd ∈ t.findByBind key' → key' = key
  no_empty_binding : ∀ key, t.bindings.get? key ≠ some []
  connection : ∀ l r fd, t.findConnection l r = some fd → ∃ st tcb key, t.get fd = some st
    ∧ st.tcb = some tcb ∧ tcb.peer = r ∧ st.bound = some key ∧ key.endpoint = l
  connected_once : ∀ fd st tcb, t.get fd = some st → st.tcb = some tcb →
    t.connections.values.count fd = 1
  ready_established : ∀ g c, c ∈ t.ready g → ∃ st tcb, t.get c = some st ∧ st.tcb = some tcb
    ∧ tcb.state.handshake = false
  ready_once : ∀ g c, c ∈ t.ready g →
    (t.ready g).count c = 1 ∧ ∀ g', c ∈ t.ready g' → g' = g

/-- A child waits in a queue that counts. -/
def Queued (t : SocketTable) (live : Fd → Prop) (c : Fd) : Prop := ∃ g, live g ∧ c ∈ t.ready g

/-- The invariant, for the handles `own` of the application and the listeners whose queues count. -/
structure Tidy (own : Fd → Option Handle) (live : Fd → Prop) (t : SocketTable) : Prop where
  fresh : ∀ fd st, t.get fd = some st → fd < t.nextId
  owned : ∀ fd, own fd ≠ none → t.get fd ≠ none
  socket : ∀ fd st, t.get fd = some st → st.Fit (own fd)
  listed : ∀ key fd, fd ∈ t.findByBind key ↔ ∃ st, t.get fd = some st ∧ st.bound = some key
  nodup : ∀ key, (t.findByBind key).Nodup
  nonempty : ∀ key, t.bindings.get? key ≠ some []
  indexed : ∀ p fd, t.connections.get? p = some fd ↔ ∃ st, t.get fd = some st ∧ st.tuple? = some p
  queue : ∀ g, (t.ready g).Nodup
  waiting : ∀ c, t.Queued live c → own c = none ∧ ∃ st, t.get c = some st ∧ st.Waiting
  once : ∀ c g g', live g → live g' → c ∈ t.ready g → c ∈ t.ready g' → g' = g

variable {own own' : Fd → Option Handle} {live live' : Fd → Prop} {t t' : SocketTable} {fd : Fd}
  {st : Socket}

/-- **The invariant is what was to be shown**, when every queue counts. -/
theorem Tidy.consistent (h : t.Tidy own fun _ => True) : t.Consistent where
  live_binding key fd hfd := by
    obtain ⟨st, hst, -⟩ := (h.listed key fd).mp hfd
    rw [hst]
    rfl
  live_connection l r fd hfd := by
    obtain ⟨st, hst, -⟩ := (h.indexed (l, r) fd).mp hfd
    rw [hst]
    rfl
  live_ready g c hc := by
    obtain ⟨-, st, hst, -⟩ := h.waiting c ⟨g, trivial, hc⟩
    rw [hst]
    rfl
  bound_once fd st key hst hb := by
    refine ⟨List.count_eq_one_of_mem (h.nodup key) ((h.listed key fd).mpr ⟨st, hst, hb⟩),
      fun key' hfd => ?_⟩
    obtain ⟨st', hst', hb'⟩ := (h.listed key' fd).mp hfd
    cases hst.symm.trans hst'
    exact Option.some.inj (hb'.symm.trans hb)
  no_empty_binding := h.nonempty
  connection l r fd hfd := by
    obtain ⟨st, hst, htup⟩ := (h.indexed (l, r) fd).mp hfd
    obtain ⟨key, tcb, hb, ht, hp⟩ := Socket.tuple?_eq_some.mp htup
    cases hp
    exact ⟨st, tcb, key, hst, ht, rfl, hb, rfl⟩
  connected_once fd st tcb hst ht := by
    obtain ⟨-, hbound, -⟩ := (h.socket fd st hst).tcb (by rw [ht]; exact Option.some_ne_none _)
    obtain ⟨key, hb⟩ := Option.ne_none_iff_exists'.mp hbound
    have htup : st.tuple? = some (key.endpoint, tcb.peer) :=
      Socket.tuple?_eq_some.mpr ⟨key, tcb, hb, ht, rfl⟩
    refine IndexMap.count_values_eq_one ((h.indexed _ fd).mpr ⟨st, hst, htup⟩) fun p hp => ?_
    obtain ⟨st', hst', htup'⟩ := (h.indexed p fd).mp hp
    cases hst.symm.trans hst'
    exact Option.some.inj (htup'.symm.trans htup)
  ready_established g c hc := by
    obtain ⟨-, st, hst, -, tcb, ht, hs⟩ := h.waiting c ⟨g, trivial, hc⟩
    exact ⟨st, tcb, hst, ht, hs⟩
  ready_once g c hc :=
    ⟨List.count_eq_one_of_mem (h.queue g) hc, fun g' hc' => h.once c g g' trivial trivial hc hc'⟩

/-- Queues that no longer count ask for nothing. -/
theorem Tidy.anti (h : t.Tidy own live) (hl : ∀ g, live' g → live g) : t.Tidy own live' :=
  { h with
    waiting := fun c ⟨g, hg, hc⟩ => h.waiting c ⟨g, hl g hg, hc⟩
    once := fun c g g' hg hg' => h.once c g g' (hl g hg) (hl g' hg') }

/-- Only what waits is queued: not a listener, not a datagram socket, not a handshake. -/
theorem Tidy.not_queued (h : t.Tidy own live) (hst : t.get fd = some st) (hw : ¬ st.Waiting) :
    ¬ t.Queued live fd := by
  intro hq
  obtain ⟨-, st', hst', hw'⟩ := h.waiting fd hq
  cases hst.symm.trans hst'
  exact hw hw'

/-- A child in its handshake is nobody's, and waits in no queue yet. -/
theorem Tidy.of_received (h : t.Tidy own live) {tcb : Tcb} (hst : t.get fd = some st)
    (ht : st.tcb = some tcb) (hs : tcb.state = .synReceived) : own fd = none ∧ ¬ t.Queued live fd := by
  have hfit := h.socket fd st hst
  have hsome : st.tcb ≠ none := by
    rw [ht]
    exact Option.some_ne_none tcb
  constructor
  · by_contra hown
    obtain ⟨handle, hown⟩ := Option.ne_none_iff_exists'.mp hown
    obtain ⟨-, hserves⟩ := hfit.serves handle hown
    cases handle with
    | listener => exact hserves (hfit.tcb hsome).2.2
    | connecting peer => exact hserves.2.2.2.2 tcb ht hs
    | stream =>
      obtain ⟨tcb', ht', hs'⟩ := hserves
      cases ht.symm.trans ht'
      rw [hs] at hs'
      cases hs'
    | udp =>
      have hty := (hfit.tcb hsome).1
      rw [hserves.1] at hty
      cases hty
  · refine h.not_queued hst fun hw => ?_
    obtain ⟨-, tcb', ht', hs'⟩ := hw
    cases ht.symm.trans ht'
    rw [hs] at hs'
    cases hs'

/-! ## 2. One socket changes -/

theorem get_modify (t : SocketTable) (fd g : Fd) (f : Socket → Socket) :
    (t.modify fd f).get g = if g = fd then (t.get fd).map f else t.get g :=
  IndexMap.get?_modify ..

theorem ready_of_get {g : Fd} (h : t'.get g = t.get g) : t'.ready g = t.ready g := by
  rw [ready, ready, h]

theorem ready_modify (hst : t.get fd = some st) {f : Socket → Socket}
    (hlisten : (f st).listen = st.listen) (g : Fd) : (t.modify fd f).ready g = t.ready g := by
  by_cases hg : g = fd
  · subst hg
    rw [ready, ready, get_modify, if_pos rfl, hst, Option.map_some, Option.bind_some,
      Option.bind_some, hlisten]
  · exact ready_of_get (by rw [get_modify, if_neg hg])

theorem ready_of_listen {g : Fd} (hst : t.get g = some st) (hl : st.listen = none) :
    t.ready g = [] := by
  rw [ready, hst, Option.bind_some, hl]

/-- **One socket changes**, or is new: the indices lose what they said of it and say what it is now.
Its queue, if it has one, gains at most children that wait. -/
theorem Tidy.change (h : t.Tidy own live) {st' : Socket} (hown : ∀ g, g ≠ fd → own' g = own g)
    (hget : ∀ g, g ≠ fd → t'.get g = t.get g) (hfd : t'.get fd = some st')
    (hnext : t.nextId ≤ t'.nextId) (hlt : fd < t'.nextId) (hfit : st'.Fit (own' fd))
    (hlisted : ∀ key g, g ∈ t'.findByBind key ↔
      g ≠ fd ∧ g ∈ t.findByBind key ∨ g = fd ∧ st'.bound = some key)
    (hnodup : ∀ key, (t'.findByBind key).Nodup) (hne : ∀ key, t'.bindings.get? key ≠ some [])
    (hindexed : ∀ p g, t'.connections.get? p = some g ↔
      g ≠ fd ∧ t.connections.get? p = some g ∨ g = fd ∧ st'.tuple? = some p)
    (hwait : t.Queued live fd → own' fd = none ∧ st'.Waiting) (hqueue : (t'.ready fd).Nodup)
    (hchild : ∀ c ∈ t'.ready fd, c ∈ t.ready fd ∨
      (c ≠ fd ∧ ¬ t.Queued live c ∧ own c = none ∧ ∃ st, t.get c = some st ∧ st.Waiting)) :
    t'.Tidy own' live := by
  have hready : ∀ g, g ≠ fd → t'.ready g = t.ready g := fun g hg => ready_of_get (hget g hg)
  -- a child that waits still does
  have hkeep : ∀ c, own c = none → (∃ st, t.get c = some st ∧ st.Waiting) →
      (c = fd → t.Queued live fd) → own' c = none ∧ ∃ st, t'.get c = some st ∧ st.Waiting := by
    intro c hnone hw hq
    by_cases hc : c = fd
    · subst hc
      obtain ⟨h1, h2⟩ := hwait (hq rfl)
      exact ⟨h1, st', hfd, h2⟩
    · rw [hown c hc, hget c hc]
      exact ⟨hnone, hw⟩
  -- what the new table says of a property, given what the old one did
  have hread : ∀ (P : Socket → Prop) (Q : Prop) (g : Fd), (Q ↔ ∃ st, t.get g = some st ∧ P st) →
      ((g ≠ fd ∧ Q ∨ g = fd ∧ P st') ↔ ∃ st, t'.get g = some st ∧ P st) := by
    intro P Q g hQ
    by_cases hg : g = fd
    · subst hg
      simp [hfd]
    · simp [hg, hget g hg, hQ]
  refine ⟨fun g st hg => ?_, fun g hg => ?_, fun g st hg => ?_, fun key g => ?_, hnodup, hne,
    fun p g => ?_, fun g => ?_, fun c hq => ?_, fun c g g' hg hg' hc hc' => ?_⟩
  · by_cases hgf : g = fd
    · rw [hgf]
      exact hlt
    · exact Nat.lt_of_lt_of_le (h.fresh g st (by rwa [hget g hgf] at hg)) hnext
  · by_cases hgf : g = fd
    · rw [hgf, hfd]
      exact Option.some_ne_none _
    · rw [hget g hgf]
      exact h.owned g (by rwa [hown g hgf] at hg)
  · by_cases hgf : g = fd
    · subst hgf
      cases hfd.symm.trans hg
      exact hfit
    · rw [hown g hgf]
      exact h.socket g st (by rwa [hget g hgf] at hg)
  · rw [hlisted]
    exact hread (fun st => st.bound = some key) _ g (h.listed key g)
  · rw [hindexed]
    exact hread (fun st => st.tuple? = some p) _ g (h.indexed p g)
  · by_cases hgf : g = fd
    · rw [hgf]
      exact hqueue
    · rw [hready g hgf]
      exact h.queue g
  · obtain ⟨g, hg, hc⟩ := hq
    by_cases hgf : g = fd
    · subst hgf
      rcases hchild c hc with hc | ⟨hne, -, hnone, hw⟩
      · obtain ⟨h1, h2⟩ := h.waiting c ⟨g, hg, hc⟩
        exact hkeep c h1 h2 fun e => e ▸ ⟨g, hg, hc⟩
      · exact hkeep c hnone hw fun e => absurd e hne
    · rw [hready g hgf] at hc
      obtain ⟨h1, h2⟩ := h.waiting c ⟨g, hg, hc⟩
      exact hkeep c h1 h2 fun e => e ▸ ⟨g, hg, hc⟩
  · -- a child new in the queue was in none that counts
    have hold : ∀ x y, live x → live y → c ∈ t'.ready x → c ∈ t'.ready y → x ≠ fd → y = fd →
        y = x := by
      intro x y hx hy hcx hcy hxf hyf
      subst hyf
      rw [hready x hxf] at hcx
      rcases hchild c hcy with hcy | ⟨-, hnq, -⟩
      · exact h.once c x y hx hy hcx hcy
      · exact absurd ⟨x, hx, hcx⟩ hnq
    by_cases hgf : g = fd
    · by_cases hgf' : g' = fd
      · rw [hgf, hgf']
      · exact (hold g' g hg' hg hc' hc hgf' hgf).symm
    · by_cases hgf' : g' = fd
      · exact hold g g' hg hg' hc hc' hgf hgf'
      · rw [hready g hgf] at hc
        rw [hready g' hgf'] at hc'
        exact h.once c g g' hg hg' hc hc'

/-- What the bindings say when they are not touched. -/
theorem Tidy.listed_split (h : t.Tidy own live) (hst : t.get fd = some st) (key : BindKey) (g : Fd) :
    g ∈ t.findByBind key ↔ g ≠ fd ∧ g ∈ t.findByBind key ∨ g = fd ∧ st.bound = some key := by
  by_cases hg : g = fd
  · subst hg
    simp [h.listed key g, hst]
  · simp [hg]

/-- What the connections say when they are not touched. -/
theorem Tidy.indexed_split (h : t.Tidy own live) (hst : t.get fd = some st)
    (p : SocketAddr × SocketAddr) (g : Fd) :
    t.connections.get? p = some g ↔
      g ≠ fd ∧ t.connections.get? p = some g ∨ g = fd ∧ st.tuple? = some p := by
  by_cases hg : g = fd
  · subst hg
    simp [h.indexed p g, hst]
  · simp [hg]

/-! ## 3. The ways in which a table changes -/

/-- **In place**: the socket is bound as before, to the peer it had. -/
theorem Tidy.modify (h : t.Tidy own live) (hst : t.get fd = some st) {f : Socket → Socket}
    (hown : ∀ g, g ≠ fd → own' g = own g) (hbound : (f st).bound = st.bound)
    (htuple : (f st).tuple? = st.tuple?) (hfit : (f st).Fit (own' fd))
    (hwait : t.Queued live fd → own' fd = none ∧ (f st).Waiting)
    (hqueue : ((t.modify fd f).ready fd).Nodup)
    (hchild : ∀ c ∈ (t.modify fd f).ready fd, c ∈ t.ready fd ∨
      (c ≠ fd ∧ ¬ t.Queued live c ∧ own c = none ∧ ∃ st, t.get c = some st ∧ st.Waiting)) :
    (t.modify fd f).Tidy own' live := by
  have hfd : (t.modify fd f).get fd = some (f st) := by
    rw [get_modify, if_pos rfl, hst]
    rfl
  refine h.change hown (fun g hg => by rw [get_modify, if_neg hg]) hfd (Nat.le_refl _)
    (h.fresh fd st hst) hfit (fun key g => ?_) h.nodup h.nonempty (fun p g => ?_) hwait hqueue hchild
  · rw [hbound]
    exact h.listed_split hst key g
  · rw [htuple]
    exact h.indexed_split hst p g

/-- In place, with the queue as it was. -/
theorem Tidy.touch (h : t.Tidy own live) (hst : t.get fd = some st) {f : Socket → Socket}
    (hown : ∀ g, g ≠ fd → own' g = own g) (hbound : (f st).bound = st.bound)
    (hlisten : (f st).listen = st.listen) (htuple : (f st).tuple? = st.tuple?)
    (hfit : (f st).Fit (own' fd)) (hwait : t.Queued live fd → own' fd = none ∧ (f st).Waiting) :
    (t.modify fd f).Tidy own' live := by
  have hready := ready_modify hst hlisten fd
  refine h.modify hst hown hbound htuple hfit hwait ?_ fun c hc => Or.inl ?_
  · rw [hready]
    exact h.queue fd
  · rwa [hready] at hc

/-- A descriptor changes hands. -/
theorem Tidy.hand (h : t.Tidy own live) (hst : t.get fd = some st)
    (hown : ∀ g, g ≠ fd → own' g = own g) (hfit : st.Fit (own' fd))
    (hq : t.Queued live fd → own' fd = none) : t.Tidy own' live := by
  refine h.change hown (fun _ _ => rfl) hst (Nat.le_refl _) (h.fresh fd st hst) hfit
    (h.listed_split hst) h.nodup h.nonempty (h.indexed_split hst) (fun hw => ⟨hq hw, ?_⟩) (h.queue fd)
    fun c hc => Or.inl hc
  obtain ⟨-, st', hst', hw'⟩ := h.waiting fd hw
  cases hst.symm.trans hst'
  exact hw'

theorem get_insert (t : SocketTable) (s : Socket) (g : Fd) :
    (t.insert s).1.get g = if g = t.nextId then some s else t.get g :=
  IndexMap.get?_insert ..

/-- The next descriptor names nothing yet. -/
theorem Tidy.next (h : t.Tidy own live) : t.get t.nextId = none ∧ own t.nextId = none := by
  have hnone : t.get t.nextId = none := by
    cases hst : t.get t.nextId with
    | none => rfl
    | some st => exact absurd (h.fresh _ st hst) (Nat.lt_irrefl _)
  refine ⟨hnone, ?_⟩
  by_contra hown
  exact h.owned _ hown hnone

/-- **A new socket**, with nothing yet. -/
theorem Tidy.opened (h : t.Tidy own live) (domain : Domain) (ty : SockType) :
    (t.insert (Socket.new domain ty)).1.Tidy own live := by
  obtain ⟨hnone, hown⟩ := h.next
  have hfd : (t.insert (Socket.new domain ty)).1.get t.nextId = some (Socket.new domain ty) := by
    rw [get_insert, if_pos rfl]
  have hq : ¬ t.Queued live t.nextId := by
    intro hq
    obtain ⟨-, st, hst, -⟩ := h.waiting _ hq
    exact Option.some_ne_none st (hst.symm.trans hnone)
  have hready : (t.insert (Socket.new domain ty)).1.ready t.nextId = [] := ready_of_listen hfd rfl
  refine h.change (fun _ _ => rfl) (fun g hg => by rw [get_insert, if_neg hg]) hfd (Nat.le_succ _)
    (Nat.lt_succ_self _) ⟨?_, ?_, ?_, ?_, ?_⟩ (fun key g => ?_) h.nodup h.nonempty (fun p g => ?_)
    (fun hq' => absurd hq' hq) ?_ ?_
  · intro key hb
    cases hb
  · intro ht
    exact absurd rfl ht
  · intro hl
    exact absurd rfl hl
  · intro tcb ht
    cases ht
  · intro handle hh
    rw [hown] at hh
    cases hh
  · show g ∈ t.findByBind key ↔ _
    by_cases hg : g = t.nextId
    · subst hg
      simp [h.listed, hnone, Socket.new]
    · simp [hg]
  · show t.connections.get? p = some g ↔ _
    by_cases hg : g = t.nextId
    · subst hg
      simp [h.indexed, hnone, Socket.new, Socket.tuple?]
    · simp [hg]
  · rw [hready]
    exact List.nodup_nil
  · rw [hready]
    intro c hc
    cases hc

theorem findByBind_insertBinding (t : SocketTable) (key key' : BindKey) (fd : Fd) :
    (t.insertBinding key fd).findByBind key'
      = if key' = key then t.findByBind key ++ [fd] else t.findByBind key' := by
  unfold insertBinding
  rw [findByBind]
  dsimp only
  rw [IndexMap.get?_insert]
  split
  · rfl
  · rfl

/-- **A socket is bound** that was not. -/
theorem Tidy.bound (h : t.Tidy own live) (hst : t.get fd = some st) (hnone : st.bound = none)
    (key : BindKey) (hown : ∀ g, g ≠ fd → own' g = own g)
    (hfit : ({ st with bound := some key } : Socket).Fit (own' fd)) :
    ((t.insertBinding key fd).modify fd fun st => { st with bound := some key }).Tidy own' live := by
  have htcb : st.tcb = none := by
    by_contra ht
    exact ((h.socket fd st hst).tcb ht).2.1 hnone
  have hlisten : st.listen = none := by
    by_contra hl
    exact ((h.socket fd st hst).listen hl).2.1 hnone
  have hfd : ((t.insertBinding key fd).modify fd fun st => { st with bound := some key }).get fd
      = some { st with bound := some key } := by
    rw [get_modify, if_pos rfl]
    show (t.get fd).map _ = _
    rw [hst]
    rfl
  have hget : ∀ g, g ≠ fd →
      ((t.insertBinding key fd).modify fd fun st => { st with bound := some key }).get g = t.get g := by
    intro g hg
    rw [get_modify, if_neg hg]
    rfl
  have hfresh : ∀ key', fd ∉ t.findByBind key' := by
    intro key' hmem
    obtain ⟨st', hst', hb⟩ := (h.listed key' fd).mp hmem
    cases hst.symm.trans hst'
    exact Option.some_ne_none key' (hb.symm.trans hnone)
  have hq : ¬ t.Queued live fd := by
    refine h.not_queued hst fun hw => ?_
    obtain ⟨-, tcb, ht, -⟩ := hw
    exact Option.some_ne_none tcb (ht.symm.trans htcb)
  have hready := ready_of_listen hfd hlisten
  refine h.change hown hget hfd (Nat.le_refl _) (h.fresh fd st hst) hfit (fun key' g => ?_)
    (fun key' => ?_) (fun key' => ?_) (fun p g => ?_) (fun hq' => absurd hq' hq) ?_ ?_
  · show g ∈ (t.insertBinding key fd).findByBind key' ↔ _
    rw [findByBind_insertBinding]
    by_cases hg : g = fd
    · subst hg
      by_cases hk : key' = key
      · simp [hk]
      · simp [hk, hfresh, Ne.symm hk]
    · by_cases hk : key' = key <;> simp [hg, hk]
  · show ((t.insertBinding key fd).findByBind key').Nodup
    rw [findByBind_insertBinding]
    split
    · exact (h.nodup key).append (List.nodup_singleton fd)
        (List.disjoint_singleton.mpr (hfresh key))
    · exact h.nodup key'
  · show (t.bindings.insert key (t.findByBind key ++ [fd])).get? key' ≠ some []
    rw [IndexMap.get?_insert]
    split
    · simp
    · exact h.nonempty key'
  · have htup : ({ st with bound := some key } : Socket).tuple? = st.tuple? := by
      simp [Socket.tuple?, htcb]
    rw [htup]
    exact h.indexed_split hst p g
  · rw [hready]
    exact List.nodup_nil
  · rw [hready]
    intro c hc
    cases hc

/-- **A bound socket gets a connection** that no other has. -/
theorem Tidy.connected (h : t.Tidy own live) (hst : t.get fd = some st) (hnone : st.tcb = none)
    {f : Socket → Socket} {p : SocketAddr × SocketAddr} (hfresh : t.connections.get? p = none)
    (hown : ∀ g, g ≠ fd → own' g = own g) (hbound : (f st).bound = st.bound)
    (hlisten : (f st).listen = none) (htuple : (f st).tuple? = some p)
    (hfit : (f st).Fit (own' fd)) :
    SocketTable.Tidy own' live
      { t.modify fd f with connections := t.connections.insert p fd } := by
  have hfd : (t.modify fd f).get fd = some (f st) := by
    rw [get_modify, if_pos rfl, hst]
    rfl
  have hq : ¬ t.Queued live fd := by
    refine h.not_queued hst fun hw => ?_
    obtain ⟨-, tcb, ht, -⟩ := hw
    exact Option.some_ne_none tcb (ht.symm.trans hnone)
  have hnot : ∀ p', t.connections.get? p' ≠ some fd := by
    intro p' hp
    obtain ⟨st', hst', htup⟩ := (h.indexed p' fd).mp hp
    cases hst.symm.trans hst'
    obtain ⟨key, tcb, -, ht, -⟩ := Socket.tuple?_eq_some.mp htup
    exact Option.some_ne_none tcb (ht.symm.trans hnone)
  have hready := ready_of_listen hfd hlisten
  refine h.change hown (fun g hg => ?_) hfd (Nat.le_refl _) (h.fresh fd st hst) hfit
    (fun key g => ?_) h.nodup h.nonempty (fun p' g => ?_) (fun hq' => absurd hq' hq) ?_ ?_
  · show (t.modify fd f).get g = _
    rw [get_modify, if_neg hg]
  · rw [hbound]
    exact h.listed_split hst key g
  · show (t.connections.insert p fd).get? p' = some g ↔ _
    rw [IndexMap.get?_insert, htuple]
    by_cases hp : p' = p
    · subst hp
      rw [if_pos rfl, hfresh]
      simp [eq_comm]
    · rw [if_neg hp]
      by_cases hg : g = fd
      · subst hg
        simp [hnot, Ne.symm hp]
      · simp [hg]
  · show ((t.modify fd f).ready fd).Nodup
    rw [hready]
    exact List.nodup_nil
  · show ∀ c ∈ (t.modify fd f).ready fd, _
    rw [hready]
    intro c hc
    cases hc

theorem get_remove (t : SocketTable) (fd g : Fd) :
    (t.remove fd).get g = if g = fd then none else t.get g :=
  IndexMap.get?_shiftRemove ..

theorem bindings_remove {key : BindKey} {fds : List Fd} :
    (t.remove fd).bindings.get? key = some fds ↔
      ∃ old, t.bindings.get? key = some old ∧ fds = old.filter (· ≠ fd) ∧ fds ≠ [] := by
  unfold remove
  rw [IndexMap.get?_retain_of_some, IndexMap.get?_mapValues]
  simp only [Option.map_eq_some_iff, Bool.not_eq_true', List.isEmpty_eq_false_iff]
  constructor
  · rintro ⟨⟨old, h1, h2⟩, h3⟩
    exact ⟨old, h1, h2.symm, h3⟩
  · rintro ⟨old, h1, h2, h3⟩
    exact ⟨⟨old, h1, h2.symm⟩, h3⟩

theorem findByBind_remove (t : SocketTable) (fd : Fd) (key : BindKey) :
    (t.remove fd).findByBind key = (t.findByBind key).filter (· ≠ fd) := by
  unfold findByBind
  cases hget : (t.remove fd).bindings.get? key with
  | some fds =>
    obtain ⟨old, hold, rfl, -⟩ := bindings_remove.mp hget
    rw [hold]
    rfl
  | none =>
    cases hold : t.bindings.get? key with
    | none => rfl
    | some old =>
      by_cases hnil : old.filter (· ≠ fd) = []
      · exact hnil.symm
      · rw [bindings_remove.mpr ⟨old, hold, rfl, hnil⟩] at hget
        cases hget

theorem connections_remove {p : SocketAddr × SocketAddr} {g : Fd} :
    (t.remove fd).connections.get? p = some g ↔ g ≠ fd ∧ t.connections.get? p = some g := by
  unfold remove
  rw [IndexMap.get?_retain_of_some]
  simp [and_comm]

/-- **A socket is removed** that waits in no queue that counts; its own queue goes with it. -/
theorem Tidy.removed (h : t.Tidy own live) (hq : ¬ t.Queued live fd)
    (hown : ∀ g, g ≠ fd → own' g = own g) (hnone : own' fd = none)
    (hlive : ∀ g, live' g → g = fd ∨ live g) : (t.remove fd).Tidy own' live' := by
  have hready : ∀ g, (t.remove fd).ready g = if g = fd then [] else t.ready g := by
    intro g
    by_cases hg : g = fd
    · rw [ready, get_remove, if_pos hg, if_pos hg]
      rfl
    · rw [ready, get_remove, if_neg hg, if_neg hg]
      rfl
  have hcounts : ∀ {g c}, live' g → c ∈ (t.remove fd).ready g → live g ∧ c ∈ t.ready g := by
    intro g c hg hc
    rw [hready] at hc
    split at hc
    · cases hc
    · rename_i hgf
      exact ⟨(hlive g hg).resolve_left hgf, hc⟩
  refine ⟨fun g st hg => ?_, fun g hg => ?_, fun g st hg => ?_, fun key g => ?_, fun key => ?_,
    fun key hk => ?_, fun p g => ?_, fun g => ?_, fun c hc => ?_, fun c g g' hg hg' hc hc' => ?_⟩
  · rw [get_remove] at hg
    split at hg
    · cases hg
    · exact h.fresh g st hg
  · rw [get_remove]
    split
    · rename_i hgf
      rw [hgf] at hg
      exact absurd hnone hg
    · rename_i hgf
      rw [hown g hgf] at hg
      exact h.owned g hg
  · rw [get_remove] at hg
    split at hg
    · cases hg
    · rename_i hgf
      rw [hown g hgf]
      exact h.socket g st hg
  · rw [findByBind_remove, get_remove]
    by_cases hg : g = fd
    · simp [hg]
    · simp [hg, h.listed]
  · rw [findByBind_remove]
    exact (h.nodup key).filter _
  · exact (bindings_remove.mp hk).elim fun _ hold => hold.2.2 rfl
  · rw [connections_remove, get_remove]
    by_cases hg : g = fd
    · simp [hg]
    · simp [hg, h.indexed]
  · rw [hready]
    split
    · exact List.nodup_nil
    · exact h.queue g
  · obtain ⟨g, hg', hc'⟩ := hc
    obtain ⟨hg, hc⟩ := hcounts hg' hc'
    obtain ⟨h1, st, h2, h3⟩ := h.waiting c ⟨g, hg, hc⟩
    have hcf : c ≠ fd := by
      intro e
      exact hq (e ▸ ⟨g, hg, hc⟩)
    rw [hown c hcf, get_remove, if_neg hcf]
    exact ⟨h1, st, h2, h3⟩
  · obtain ⟨hg, hc⟩ := hcounts hg hc
    obtain ⟨hg', hc'⟩ := hcounts hg' hc'
    exact h.once c g g' hg hg' hc hc'

/-- The port cursor is no part of the invariant. -/
theorem Tidy.ports (h : t.Tidy own live) (ports : PortAllocator) :
    SocketTable.Tidy own live { t with ports := ports } :=
  ⟨h.fresh, h.owned, h.socket, h.listed, h.nodup, h.nonempty, h.indexed, h.queue, h.waiting, h.once⟩

end SocketTable

end Turmoil.Net
