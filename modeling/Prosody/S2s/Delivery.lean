import Mathlib.Data.Nat.Find
import Prosody.Library.Outbox
import Prosody.S2s.Outgoing

/-! # Delivery to a remote host

What the sessions of a pair of hosts make of the stanzas submitted to them. The pair is an
outbox whose waiting items are the queue of the registered session, as long as no session
is overtaken by another. -/

namespace Prosody.S2s

open Machine

namespace State

/-! ## The delivery property -/

/-- The newest undestroyed session of the pair. -/
def Newest (s : State) (i : ℕ) : Prop :=
  s.Live i ∧ ∀ j, s.Live j → j ≤ i

/-- The stanza is in the queue of an undestroyed session. -/
def Waiting (s : State) (x : Item) : Prop :=
  ∃ i, s.Live i ∧ x ∈ (s.sessions i).sendq

def writes (s : State) (x : Item) : ℕ :=
  (s.written.map Write.item).count x

/-- Stanzas are written to authenticated streams, at most once and in the order of their
submission. One that can be bounced is written once, or bounced once, or still waits. The
registered session is the newest. -/
structure Delivered (s : State) : Prop where
  authenticated : ∀ w ∈ s.written, w.type = .s2sout
  distinct : s.submitted.Nodup
  ordered : (s.written.map Write.item).Sublist s.submitted
  once : ∀ x ∈ s.submitted, x.hasReply →
    s.writes x = 1 ∧ s.bounced.count x = 0 ∧ ¬s.Waiting x ∨
    s.writes x = 0 ∧ s.bounced.count x = 1 ∧ ¬s.Waiting x ∨
    s.writes x = 0 ∧ s.bounced.count x = 0 ∧ s.Waiting x
  registered : ∀ i, s.s2sout = some i ↔ s.Newest i

/-! ## The condition -/

/-- Every queued stanza that could be bounced gets through. -/
def Through (s : State) (i : ℕ) (sends : Item → Bool) : Prop :=
  ∀ x ∈ (s.sessions i).sendq, x.hasReply → sends x

/-- No other session of the pair is undestroyed. -/
def Sole (s : State) (i : ℕ) : Prop :=
  ∀ j, s.Live j → j = i

/-- Whether a stanza finds no session that takes it. -/
def opensSession (s : State) (writes : Bool) : Bool :=
  match s.s2sout with
  | none => true
  | some i => (s.sessions i).type != .s2soutUnauthed && !writes

/-- No stanza overtakes the queue of an authenticated session, a new session can at least
try to connect (or the stanza is a reply, and there is no session to unregister), queues
are written out in full, and sessions are destroyed one before the next is opened. -/
def Smooth (s : State) : Event → Prop
  | .submit stanza writes connects =>
    (∀ i, s.s2sout = some i → (s.sessions i).type = .s2sout → (s.sessions i).sendq = []) ∧
    (s.opensSession writes → connects ∨
      s.s2sout = none ∧ (stanza.type = .error ∨ stanza.type = .result))
  | .stream i e permitted sends => s.Live i →
      match s.reaction i e with
      | .ignore | .attempt | .fail => True
      | .authenticate external =>
        if permitted then
          (s.sessions i).type = .s2soutUnauthed → external = false → s.Through i sends
        else s.Sole i
      | .connected => s.Through i sends
      | .close => s.Sole i

/-! ## The outbox of the pair -/

/-- The queue of the registered session. -/
def pending (s : State) : List Item :=
  match s.s2sout with
  | none => []
  | some i => (s.sessions i).sendq

def outbox (s : State) : Outbox Item where
  submitted := s.submitted
  sent := s.written.map Write.item
  pending := s.pending
  returned := s.bounced

/-- Only the registered session has a queue, and the outbox of the pair is settled. -/
structure Sound (s : State) : Prop where
  settled : s.outbox.Settled Item.hasReply
  numbered : ∀ x ∈ s.submitted, x.id < s.submitted.length
  authenticated : ∀ w ∈ s.written, w.type = .s2sout
  registered : ∀ i, s.s2sout = some i ↔ s.Newest i
  idle : ∀ i, (s.sessions i).sendq ≠ [] → s.s2sout = some i

variable {s : State} {i : ℕ}

theorem pending_some (h : s.s2sout = some i) : s.pending = (s.sessions i).sendq := by
  simp [pending, h]

variable {j : ℕ}

theorem Newest.unique (hi : s.Newest i) (hj : s.Newest j) : i = j :=
  Nat.le_antisymm (hj.2 i hi.1) (hi.2 j hj.1)

theorem live_congr {t : State} (hopened : t.opened = s.opened)
    (htype : ∀ j, (t.sessions j).type = .s2sDestroyed ↔ (s.sessions j).type = .s2sDestroyed)
    (j : ℕ) : t.Live j ↔ s.Live j := by
  simp [Live, hopened, htype]

theorem newest_congr {t : State} (hopened : t.opened = s.opened)
    (htype : ∀ j, (t.sessions j).type = .s2sDestroyed ↔ (s.sessions j).type = .s2sDestroyed)
    (i : ℕ) : t.Newest i ↔ s.Newest i := by
  simp [Newest, live_congr hopened htype]

theorem Sound.waiting_iff (h : s.Sound) (x : Item) : s.Waiting x ↔ x ∈ s.pending := by
  constructor
  · rintro ⟨i, -, hx⟩
    rwa [pending_some (h.idle i (List.ne_nil_of_mem hx))]
  · intro hx
    cases hout : s.s2sout with
    | none => simp [pending, hout] at hx
    | some i =>
      rw [pending_some hout] at hx
      exact ⟨i, ((h.registered i).mp hout).1, hx⟩

theorem Sound.delivered (h : s.Sound) : s.Delivered where
  authenticated := h.authenticated
  distinct := h.settled.distinct
  ordered := (List.sublist_append_left _ _).trans h.settled.ordered
  once := by
    intro x hx hreply
    have hcount : s.writes x + s.pending.count x + s.bounced.count x = 1 :=
      h.settled.once x hx hreply
    rw [h.waiting_iff, ← List.count_pos_iff]
    omega
  registered := h.registered

theorem Sound.fresh (h : s.Sound) (stanza : Stanza) : s.next stanza ∉ s.submitted := by
  intro hmem
  exact Nat.lt_irrefl _ (h.numbered _ hmem)

theorem Sound.numbered_snoc (h : s.Sound) (stanza : Stanza) :
    ∀ x ∈ s.submitted ++ [s.next stanza], x.id < (s.submitted ++ [s.next stanza]).length := by
  intro x hx
  rw [List.length_append, List.length_singleton]
  rcases List.mem_append.mp hx with hx | hx
  · exact Nat.lt_succ_of_lt (h.numbered x hx)
  · rw [List.mem_singleton.mp hx]
    exact Nat.lt_succ_self _

/-- The registered session can be told apart by its queue. -/
theorem Sound.queue_nil (h : s.Sound) (hi : s.s2sout ≠ some i) : (s.sessions i).sendq = [] := by
  by_contra hq
  exact hi (h.idle i hq)

/-! ## Changes to one session -/

@[simp] theorem amend_same (s : State) (i : ℕ) (f : Session → Session) :
    (s.amend i f).sessions i = f (s.sessions i) :=
  Function.amend_same ..

theorem amend_other (s : State) (h : j ≠ i) (f : Session → Session) :
    (s.amend i f).sessions j = s.sessions j :=
  Function.amend_of_ne _ h f

@[simp] theorem amend_opened (s : State) (i : ℕ) (f : Session → Session) :
    (s.amend i f).opened = s.opened := rfl

@[simp] theorem amend_s2sout (s : State) (i : ℕ) (f : Session → Session) :
    (s.amend i f).s2sout = s.s2sout := rfl

theorem amend_type {f : Session → Session}
    (hf : (f (s.sessions i)).type = .s2sDestroyed ↔ (s.sessions i).type = .s2sDestroyed) (j : ℕ) :
    ((s.amend i f).sessions j).type = .s2sDestroyed ↔ (s.sessions j).type = .s2sDestroyed := by
  by_cases hj : j = i
  · rw [hj, amend_same, hf]
  · rw [amend_other s hj]

theorem Sound.amend (h : s.Sound) {f : Session → Session}
    (hf : (f (s.sessions i)).type = .s2sDestroyed ↔ (s.sessions i).type = .s2sDestroyed)
    (hq : (f (s.sessions i)).sendq = (s.sessions i).sendq) : (s.amend i f).Sound := by
  have hqueue : ∀ j, ((s.amend i f).sessions j).sendq = (s.sessions j).sendq := by
    intro j
    by_cases hj : j = i
    · rw [hj, amend_same, hq]
    · rw [amend_other s hj]
  have hbox : (s.amend i f).outbox = s.outbox := by
    have : (s.amend i f).pending = s.pending := by
      cases hout : s.s2sout with
      | none => simp [pending, hout]
      | some j => rw [pending_some hout, pending_some (by simpa using hout), hqueue]
    unfold outbox
    rw [this]
    rfl
  exact {
    settled := hbox ▸ h.settled
    numbered := h.numbered
    authenticated := h.authenticated
    registered := fun j =>
      (h.registered j).trans (newest_congr (amend_opened s i f) (amend_type hf) j).symm
    idle := fun j hj => h.idle j (hqueue j ▸ hj) }

/-! ## Writing out a queue -/

@[simp] theorem markConnected_type (s : State) (i j : ℕ) (sends : Item → Bool) :
    ((s.markConnected i sends).sessions j).type = (s.sessions j).type := by
  by_cases hj : j = i
  · subst hj
    simp [markConnected, State.amend]
  · simp [markConnected, State.amend, hj]

@[simp] theorem markConnected_sendq (s : State) (i : ℕ) (sends : Item → Bool) :
    ((s.markConnected i sends).sessions i).sendq = [] := by
  simp [markConnected, State.amend]

@[simp] theorem markConnected_opened (s : State) (i : ℕ) (sends : Item → Bool) :
    (s.markConnected i sends).opened = s.opened := rfl

theorem markConnected_other (s : State) (h : j ≠ i) (sends : Item → Bool) :
    (s.markConnected i sends).sessions j = s.sessions j := by
  simp [markConnected, State.amend, h]

theorem outbox_markConnected (h : s.Sound) (i : ℕ) (sends : Item → Bool) :
    (s.markConnected i sends).outbox = s.outbox ∨
      s.s2sout = some i ∧ (s.markConnected i sends).outbox = s.outbox.flush sends := by
  by_cases hout : s.s2sout = some i
  · refine .inr ⟨hout, ?_⟩
    have hp : (s.markConnected i sends).pending = [] := by
      rw [pending_some (s := s.markConnected i sends) hout, markConnected_sendq]
    have hw : (s.markConnected i sends).written.map Write.item =
        s.written.map Write.item ++ s.pending.filter sends := by
      simp [markConnected, pending_some hout, Function.comp_def]
    simp only [outbox, hp, hw, Outbox.flush]
    rfl
  · refine .inl ?_
    have hq := h.queue_nil hout
    have hp : (s.markConnected i sends).pending = s.pending := by
      cases hreg : s.s2sout with
      | none => simp [pending, markConnected, hreg]
      | some j =>
        have hj : j ≠ i := fun hji => hout (hji ▸ hreg)
        rw [pending_some hreg, pending_some (s := s.markConnected i sends) hreg,
          markConnected_other s hj]
    have hw : (s.markConnected i sends).written = s.written := by
      simp [markConnected, hq]
    simp only [outbox, hp, hw]
    rfl

variable {sends : Item → Bool}

theorem Sound.markConnected (h : s.Sound)
    (htype : (s.sessions i).type = .s2sout) (hsends : s.Through i sends) :
    (s.markConnected i sends).Sound where
  settled := by
    rcases outbox_markConnected h i sends with hbox | ⟨hout, hbox⟩
    · exact hbox ▸ h.settled
    · rw [hbox]
      refine h.settled.flush ?_
      show ∀ x ∈ s.pending, _
      rw [pending_some hout]
      exact hsends
  numbered := h.numbered
  authenticated := by
    intro w hw
    rcases List.mem_append.mp hw with hw | hw
    · exact h.authenticated w hw
    · obtain ⟨x, -, rfl⟩ := List.mem_map.mp hw
      exact htype
  registered j :=
    (h.registered j).trans
      (newest_congr (markConnected_opened s i sends) (by simp) j).symm
  idle j hj := by
    by_cases hji : j = i
    · rw [hji, markConnected_sendq] at hj
      exact absurd rfl hj
    · rw [markConnected_other s hji] at hj
      exact h.idle j hj

/-! ## Destroying a session -/

theorem Sole.registered (h : s.Sound) (hlive : s.Live i) (hsole : s.Sole i) : s.s2sout = some i :=
  (h.registered i).mpr ⟨hlive, fun j hj => (hsole j hj).le⟩

theorem destroySession_live (h : s.Live i) :
    s.destroySession i = (({ s with s2sout := none }).bounceSendq i).retireSession i :=
  if_neg h.2

/-- The last undestroyed session leaves its queue bounced and nothing registered. -/
theorem Sound.destroySession (h : s.Sound) (hlive : s.Live i)
    (hsole : s.Sole i) : (s.destroySession i).Sound := by
  have hout := Sole.registered h hlive hsole
  have hdead : ∀ j, ¬(s.destroySession i).Live j := by
    intro j
    rw [destroySession_live hlive]
    by_cases hj : j = i
    · subst hj
      simp [Live, retireSession]
    · intro hlj
      refine hj (hsole j ?_)
      simpa [Live, retireSession, bounceSendq, amend_other _ hj, State.amend, hj] using hlj
  have hbox : (s.destroySession i).outbox = s.outbox.giveBack Item.hasReply := by
    rw [destroySession_live hlive]
    simp [outbox, Outbox.giveBack, pending, hout, retireSession, bounceSendq, State.amend]
  exact {
    settled := hbox ▸ h.settled.giveBack
    numbered := by
      rw [destroySession_live hlive]
      exact h.numbered
    authenticated := by
      rw [destroySession_live hlive]
      exact h.authenticated
    registered := by
      intro j
      refine iff_of_false ?_ fun hnew => hdead j hnew.1
      rw [destroySession_live hlive]
      simp [retireSession, bounceSendq]
    idle := by
      intro j hj
      rw [destroySession_live hlive] at hj
      by_cases hji : j = i
      · subst hji
        simp [retireSession] at hj
      · refine absurd (h.queue_nil (i := j) fun hreg => hji ?_) ?_
        · exact Option.some_inj.mp (hreg.symm.trans hout)
        · simpa [retireSession, bounceSendq, State.amend, hji] using hj }

/-! ## Authentication -/

theorem Sound.makeAuthenticated (h : s.Sound) {permitted : Bool}
    (hlive : s.Live i) (hok : if permitted then
        (s.sessions i).type = .s2soutUnauthed → (s.sessions i).externalAuth ≠ .succeeded →
          s.Through i sends else s.Sole i) : (s.makeAuthenticated i permitted sends).Sound := by
  cases permitted with
  | false =>
    have hsole : s.Sole i := by simpa using hok
    have hdead : ((s.destroySession i).sessions i).type = .s2sDestroyed := by
      rw [destroySession_live hlive]
      simp [retireSession]
    have : s.makeAuthenticated i false sends = s.destroySession i := by
      simp [State.makeAuthenticated, hdead]
    rw [this]
    exact h.destroySession hlive hsole
  | true =>
    simp only [if_true] at hok
    by_cases htype : (s.sessions i).type = .s2soutUnauthed
    · have hnew : (s.amend i fun x => { x with type := .s2sout }).Sound :=
        h.amend (by simp [htype]) rfl
      simp only [State.makeAuthenticated, if_true, htype, amend_same]
      split
      · rename_i hext
        refine hnew.markConnected (by simp) ?_
        simpa [Through] using hok htype hext
      · exact hnew
    · simpa [State.makeAuthenticated, htype] using h

/-! ## Submission -/

/-- Where a session is alive, one of them is the newest. -/
theorem Live.exists_newest (h : s.Live j) : ∃ i, s.Newest i :=
  ⟨Nat.findGreatest s.Live s.opened, Nat.findGreatest_spec h.1.le h,
    fun _ hk => Nat.le_findGreatest hk.1.le hk⟩

theorem Sound.not_live (h : s.Sound) (hout : s.s2sout = none) (j : ℕ) : ¬s.Live j := by
  intro hlive
  obtain ⟨i, hi⟩ := hlive.exists_newest
  have := (h.registered i).mpr hi
  simp [hout] at this

theorem Sound.queued (h : s.Sound) (stanza : Stanza) (hout : s.s2sout = some i) :
    ((s.number (s.next stanza)).amend i
      fun q => { q with sendq := q.sendq ++ [s.next stanza] }).Sound := by
  set x := s.next stanza with hx
  set t := (s.number x).amend i fun q => { q with sendq := q.sendq ++ [x] } with ht
  have hbox : t.outbox = s.outbox.hold x := by
    simp [ht, outbox, Outbox.hold, number, State.amend, pending, hout]
  have htype : ∀ j, (t.sessions j).type = (s.sessions j).type := by
    intro j
    by_cases hj : j = i
    · rw [ht, hj, amend_same]
      rfl
    · rw [ht, amend_other _ hj]
      rfl
  exact {
    settled := hbox ▸ h.settled.hold (h.fresh stanza)
    numbered := h.numbered_snoc stanza
    authenticated := h.authenticated
    registered := fun j =>
      (h.registered j).trans (newest_congr (s := s) (t := t) rfl (by simp [htype]) j).symm
    idle := by
      intro j hj
      by_cases hji : j = i
      · exact hji ▸ hout
      · rw [ht, amend_other _ hji] at hj
        exact h.idle j hj }

theorem Sound.written (h : s.Sound) (stanza : Stanza) (hempty : s.pending = []) :
    ({ s.number (s.next stanza) with
      written := s.written ++ [⟨i, s.next stanza, .s2sout⟩] } : State).Sound where
  settled := by
    have := h.settled.send (h.fresh stanza) hempty
    simpa [outbox, Outbox.send, number, pending] using this
  numbered := h.numbered_snoc stanza
  authenticated := by
    intro w hw
    rcases List.mem_append.mp hw with hw | hw
    · exact h.authenticated w hw
    · rw [List.mem_singleton.mp hw]
  registered j := h.registered j
  idle j hj := h.idle j hj

theorem newOutgoing_newest (s : State) (sendq : List Item) :
    (s.newOutgoing sendq).Newest s.opened := by
  refine ⟨⟨Nat.lt_succ_self _, by simp [newOutgoing]⟩, ?_⟩
  intro j hj
  exact Nat.le_of_lt_succ hj.1

theorem newOutgoing_live {sendq : List Item} (hj : j ≠ s.opened)
    (h : (s.newOutgoing sendq).Live j) : s.Live j := by
  obtain ⟨hlt, htype⟩ := h
  refine ⟨lt_of_le_of_ne (Nat.le_of_lt_succ hlt) hj, ?_⟩
  simpa [newOutgoing, hj] using htype

theorem Sound.opened (h : s.Sound) (stanza : Stanza) (hempty : ∀ j, (s.sessions j).sendq = []) :
    ((s.number (s.next stanza)).newOutgoing [s.next stanza]).Sound := by
  set x := s.next stanza
  set t := (s.number x).newOutgoing [x] with ht
  have hbox : t.outbox = s.outbox.hold x := by
    have hp : s.pending = [] := by
      cases hout : s.s2sout with
      | none => simp [pending, hout]
      | some i => rw [pending_some hout, hempty]
    simp [ht, outbox, Outbox.hold, number, newOutgoing, hp]
    simp [pending]
  have hnew : t.Newest s.opened := newOutgoing_newest (s.number x) [x]
  exact {
    settled := hbox ▸ h.settled.hold (h.fresh stanza)
    numbered := h.numbered_snoc stanza
    authenticated := h.authenticated
    registered := by
      intro j
      constructor
      · intro hj
        exact Option.some_inj.mp hj ▸ hnew
      · intro hj
        exact congrArg some (hnew.unique hj)
    idle := by
      intro j hj
      by_cases hjo : j = s.opened
      · exact congrArg some hjo.symm
      · simp [ht, newOutgoing, number, hjo, hempty] at hj }

/-- Nobody waits for the answer to a reply. -/
theorem Sound.answered (h : s.Sound) {back : List Item}
    (hback : ∀ x ∈ back, x ∈ s.submitted ∧ x.hasReply = false) :
    ({ s with bounced := s.bounced ++ back } : State).Sound where
  settled := h.settled.giveUp hback
  numbered := h.numbered
  authenticated := h.authenticated
  registered j := h.registered j
  idle j hj := h.idle j hj

theorem notAllowedReply_self {x y : Item} (h : y ∈ notAllowedReply x) : y = x := by
  unfold notAllowedReply at h
  split at h
  · simp at h
  · exact List.mem_singleton.mp h

/-- A stanza that opens a session. Failing to connect at once costs a reply only its own
answer. -/
theorem Sound.routedNew (h : s.Sound) {stanza : Stanza} {connects : Bool}
    (hempty : ∀ j, (s.sessions j).sendq = [])
    (hok : connects ∨ s.s2sout = none ∧ (stanza.type = .error ∨ stanza.type = .result)) :
    let r := (s.number (s.next stanza)).routeToNewSession (s.next stanza) connects
    (if r.2 then r.1
      else { r.1 with bounced := r.1.bounced ++ notAllowedReply (s.next stanza) }).Sound := by
  have hopen := h.opened stanza hempty
  cases connects with
  | true => exact hopen
  | false =>
    obtain ⟨hout, hreply⟩ : s.s2sout = none ∧ (stanza.type = .error ∨ stanza.type = .result) := by
      simpa using hok
    set t := (s.number (s.next stanza)).newOutgoing [s.next stanza] with ht
    have hlive : t.Live s.opened := (newOutgoing_newest (s.number _) _).1
    have hsole : t.Sole s.opened := by
      intro j hj
      by_contra hne
      exact h.not_live hout j (newOutgoing_live (s := s.number _) hne hj)
    refine (hopen.destroySession hlive hsole).answered ?_
    intro x hx
    rw [notAllowedReply_self hx]
    constructor
    · rw [destroySession_live hlive]
      simp [ht, retireSession, bounceSendq, State.amend, newOutgoing, number]
    · rcases hreply with hreply | hreply
      · simp [Item.hasReply, next, hreply]
      · simp [Item.hasReply, next, hreply]

theorem Sound.coreRouteStanza (h : s.Sound) {stanza : Stanza}
    {writes connects : Bool} (hok : s.Smooth (.submit stanza writes connects)) :
    (s.coreRouteStanza stanza writes connects).Sound := by
  obtain ⟨hflushed, hopens⟩ := hok
  cases hout : s.s2sout with
  | none =>
    have hempty : ∀ j, (s.sessions j).sendq = [] := fun j => h.queue_nil (by simp [hout])
    have hnew := h.routedNew hempty (hopens (by simp [opensSession, hout]))
    simpa [State.coreRouteStanza, routeRemote, routeToExistingSession, number, hout] using hnew
  | some i =>
    cases htype : (s.sessions i).type with
    | s2soutUnauthed =>
      have hqueued := h.queued stanza hout
      simpa [State.coreRouteStanza, routeRemote, routeToExistingSession, number, hout, htype]
        using hqueued
    | s2sout =>
      have hqueue := hflushed i hout htype
      cases writes with
      | true =>
        have hwritten := h.written stanza (i := i) ((pending_some hout).trans hqueue)
        simpa [State.coreRouteStanza, routeRemote, routeToExistingSession, number, hout,
          htype] using hwritten
      | false =>
        have hempty : ∀ j, (s.sessions j).sendq = [] := by
          intro j
          by_cases hj : j = i
          · exact hj ▸ hqueue
          · exact h.queue_nil fun hreg =>
              hj (Option.some_inj.mp (hreg.symm.trans hout))
        have hnew := h.routedNew hempty (hopens (by simp [opensSession, hout, htype]))
        simpa [State.coreRouteStanza, routeRemote, routeToExistingSession, number, hout,
          htype] using hnew
    | s2sDestroyed => exact absurd htype ((h.registered i).mp hout).1.2

/-! ## Stream events -/

/-- Only an authenticated session is declared ready for stanzas. -/
theorem reaction_connected {e : StreamEvent}
    (h : s.reaction i e = .connected) : (s.sessions i).type = .s2sout := by
  cases e with
  | features offered =>
    simp only [reaction, Session.features] at h
    split_ifs at h with _ _ htype
    exact htype
  | opened hasId => cases hasId <;> simp [reaction] at h
  | success =>
    simp only [reaction, Session.success] at h
    split_ifs at h
  | failure =>
    simp only [reaction, Session.failure] at h
    split_ifs at h
  | result addressed valid =>
    simp only [reaction, dialbackResult] at h
    split_ifs at h
  | closed => simp [reaction] at h

theorem Sound.react (h : s.Sound) {e : StreamEvent} {permitted : Bool}
    (hlive : s.Live i) (hok : s.Smooth (.stream i e permitted sends)) :
    (s.react i permitted sends (s.reaction i e)).Sound := by
  have hcond := hok hlive
  cases hr : s.reaction i e with
  | ignore => exact h
  | attempt => exact h.amend (f := fun x => { x with externalAuth := .attempting }) Iff.rfl rfl
  | fail => exact h.amend (f := fun x => { x with externalAuth := .failed }) Iff.rfl rfl
  | authenticate external =>
    simp only [hr] at hcond
    cases external with
    | false =>
      refine h.makeAuthenticated hlive ?_
      cases permitted with
      | false => simpa using hcond
      | true => exact fun htype _ => hcond htype rfl
    | true =>
      have hsame : ∀ j, (s.amend i fun x => { x with externalAuth := .succeeded }).Live j ↔
          s.Live j :=
        live_congr (amend_opened s i _) (amend_type Iff.rfl)
      refine Sound.makeAuthenticated (h.amend Iff.rfl rfl) ((hsame i).mpr hlive) ?_
      cases permitted with
      | false => exact fun j hj => hcond j ((hsame j).mp hj)
      | true => exact fun _ hext => absurd (by simp) hext
  | connected =>
    simp only [hr] at hcond
    exact h.markConnected (reaction_connected hr) hcond
  | close =>
    simp only [hr] at hcond
    exact h.destroySession hlive hcond

theorem Sound.step (h : s.Sound) (e : Event) (hok : s.Smooth e) : (s.step e).Sound := by
  cases e with
  | submit stanza writes connects => exact h.coreRouteStanza hok
  | stream i e permitted sends =>
    simp only [State.step]
    split
    · rename_i hlive
      exact h.react hlive hok
    · exact h

end State

end Prosody.S2s
