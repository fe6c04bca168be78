import Prosody.Library.Separator
import Prosody.S2s.Dialback

/-! # What dialback binds

A name is accepted on an incoming session in response to the verdict of that name's server
about a claim that the session made on its present stream. The link between claim and
verdict is a table with a concatenation as its key, which is as good as the pair it is made
of as long as the second part has no slash. -/

namespace Prosody.Dialback

open Machine

/-! ## Keys -/

variable {host : String}

variable {id : String}

theorem requestKey_inj {host' id' : String} (hid : '/' ∉ id.toList)
    (hid' : '/' ∉ id'.toList) (h : requestKey host id = requestKey host' id') :
    host = host' ∧ id = id' := by
  have hlist : host.toList ++ '/' :: id.toList = host'.toList ++ '/' :: id'.toList := by
    simpa [requestKey] using congrArg String.toList h
  obtain ⟨h1, h2⟩ := Separator.append_cons_inj_right hid hid' hlist
  exact ⟨String.toList_inj.mp h1, String.toList_inj.mp h2⟩

variable {c : Config}

/-- Names without spaces and an id can be read off what is hashed. -/
theorem generateDialback_inj (hinj : Function.Injective (c.sha256Hmac c.dialbackSecret))
    {toHost fromHost id' toHost' fromHost' : String}
    (hto : ' ' ∉ toHost.toList) (hto' : ' ' ∉ toHost'.toList)
    (hfrom : ' ' ∉ fromHost.toList) (hfrom' : ' ' ∉ fromHost'.toList)
    (h : generateDialback c id toHost fromHost = generateDialback c id' toHost' fromHost') :
    id = id' ∧ toHost = toHost' ∧ fromHost = fromHost' := by
  have hlist : toHost.toList ++ ' ' :: (fromHost.toList ++ ' ' :: id.toList) =
      toHost'.toList ++ ' ' :: (fromHost'.toList ++ ' ' :: id'.toList) := by
    simpa using congrArg String.toList (hinj h)
  obtain ⟨h1, hrest⟩ := Separator.append_cons_inj_left hto hto' hlist
  obtain ⟨h2, h3⟩ := Separator.append_cons_inj_left hfrom hfrom' hrest
  exact ⟨String.toList_inj.mp h3, String.toList_inj.mp h1, String.toList_inj.mp h2⟩

theorem verifyDialback_generateDialback (hinj : Function.Injective (c.sha256Hmac c.dialbackSecret))
    {toHost fromHost id' toHost' fromHost' : String}
    (hto : ' ' ∉ toHost.toList) (hto' : ' ' ∉ toHost'.toList)
    (hfrom : ' ' ∉ fromHost.toList) (hfrom' : ' ' ∉ fromHost'.toList) :
    verifyDialback c id toHost fromHost (some (generateDialback c id' toHost' fromHost')) ↔
      id = id' ∧ toHost = toHost' ∧ fromHost = fromHost' := by
  constructor
  · intro h
    have hkey : generateDialback c id' toHost' fromHost' = generateDialback c id toHost fromHost := by
      simpa [verifyDialback] using h
    exact generateDialback_inj hinj hto hto' hfrom hfrom' hkey.symm
  · rintro ⟨rfl, rfl, rfl⟩
    simp [verifyDialback]

/-! ## Stream ids -/

theorem hexDigit_ne_slash (n : Fin 16) : hexDigit n ≠ '/' := by
  revert n
  decide

theorem slash_notMem_getNibbles (random : ℕ → Fin 16) (k n : ℕ) :
    '/' ∉ getNibbles random k n := by
  intro h
  obtain ⟨j, -, hj⟩ := List.mem_map.mp h
  exact hexDigit_ne_slash _ hj

/-- The ids of our own streams have no slash. -/
theorem slash_notMem_uuidGenerate (random : ℕ → Fin 16) :
    '/' ∉ (uuidGenerate random).toList := by
  simp [uuidGenerate, slash_notMem_getNibbles, (hexDigit_ne_slash _).symm]

theorem uuidGenerate_ne_empty (random : ℕ → Fin 16) : uuidGenerate random ≠ "" := by
  intro h
  have := congrArg (fun u => u.toList.length) h
  simp [uuidGenerate] at this

/-! ## Sessions that go on -/

/-- A session is destroyed, or keeps its direction and its stream. -/
def Keeps (x y : Session) : Prop :=
  y.type = .s2sDestroyed ∨
    (y.Incoming ↔ x.Incoming) ∧ (y.Outgoing ↔ x.Outgoing) ∧ y.streamid = x.streamid

theorem Keeps.refl (x : Session) : Keeps x x :=
  .inr ⟨Iff.rfl, Iff.rfl, rfl⟩

theorem Session.destroyed_iff (x : Session) :
    x.type = .s2sDestroyed ↔ ¬x.Incoming ∧ ¬x.Outgoing := by
  cases h : x.type <;> simp [Incoming, Outgoing, h]

variable {x : Session}

theorem Keeps.trans {y z : Session} (h : Keeps x y) (h' : Keeps y z) : Keeps x z := by
  rcases h' with hz | ⟨hzi, hzo, hzs⟩
  · exact .inl hz
  · rcases h with hy | ⟨hyi, hyo, hys⟩
    · refine .inl (z.destroyed_iff.mpr ?_)
      rw [hzi, hzo]
      exact y.destroyed_iff.mp hy
    · exact .inr ⟨hzi.trans hyi, hzo.trans hyo, hzs.trans hys⟩

/-- A session that goes on was not destroyed before. -/
theorem Keeps.live {y : Session} (h : Keeps x y) (hy : y.type ≠ .s2sDestroyed) :
    x.type ≠ .s2sDestroyed := by
  rcases h with hdead | ⟨hin, hout, -⟩
  · exact absurd hdead hy
  · rw [Ne, x.destroyed_iff, ← hin, ← hout, ← y.destroyed_iff]
    exact hy

theorem Keeps.incoming {y : Session} (h : Keeps x y) (hy : y.Incoming) :
    x.Incoming ∧ x.streamid = y.streamid := by
  rcases h with hdead | ⟨hin, -, hid⟩
  · exact absurd hy (y.destroyed_iff.mp hdead).1
  · exact ⟨hin.mp hy, hid.symm⟩

theorem Session.Incoming.not_outgoing (h : x.Incoming) : ¬x.Outgoing := by
  rcases h with h | h <;> simp [Outgoing, h]

namespace State

/-- No session is opened and no request is made. -/
structure Ages (s t : State) : Prop where
  opened : t.opened = s.opened
  requests : ∀ key i, t.dialbackRequests.get key = some i → s.dialbackRequests.get key = some i
  keeps : ∀ i, Keeps (s.sessions i) (t.sessions i)

/-- No name is accepted that has not been accepted before. -/
def Quiet (s t : State) : Prop :=
  ∀ i host, (t.sessions i).authed host → (s.sessions i).authed host

theorem Ages.refl (s : State) : Ages s s :=
  ⟨rfl, fun _ _ h => h, fun i => Keeps.refl (s.sessions i)⟩

theorem Ages.trans {s t u : State} (h : Ages s t) (h' : Ages t u) : Ages s u where
  opened := h'.opened.trans h.opened
  requests key i hi := h.requests key i (h'.requests key i hi)
  keeps i := (h.keeps i).trans (h'.keeps i)

theorem Quiet.trans {s t u : State} (h : Quiet s t) (h' : Quiet t u) : Quiet s u :=
  fun i host ha => h i host (h' i host ha)

@[simp] theorem amend_same (s : State) (i : ℕ) (f : Session → Session) :
    (s.amend i f).sessions i = f (s.sessions i) :=
  Function.amend_same ..

variable {i : ℕ}

theorem amend_other (s : State) {j : ℕ} (h : j ≠ i) (f : Session → Session) :
    (s.amend i f).sessions j = s.sessions j :=
  Function.amend_of_ne _ h f

theorem ages_amend (s : State) {f : Session → Session}
    (hf : Keeps (s.sessions i) (f (s.sessions i))) : Ages s (s.amend i f) where
  opened := rfl
  requests _ _ h := h
  keeps j := by
    by_cases hj : j = i
    · rw [hj, amend_same]
      exact hf
    · rw [amend_other s hj]
      exact Keeps.refl _

theorem quiet_amend (s : State) {f : Session → Session}
    (hf : ∀ host, (f (s.sessions i)).authed host → (s.sessions i).authed host) :
    Quiet s (s.amend i f) := by
  intro j host h
  by_cases hj : j = i
  · rw [hj, amend_same] at h
    exact hj ▸ hf host h
  · rwa [amend_other s hj] at h

/-! ## Destruction -/

@[simp] theorem unregister_sessions (s : State) (x : Session) :
    (s.unregister x).sessions = s.sessions := by
  unfold unregister
  split <;> rfl

@[simp] theorem unregister_opened (s : State) (x : Session) :
    (s.unregister x).opened = s.opened := by
  unfold unregister
  split <;> rfl

@[simp] theorem unregister_requests (s : State) (x : Session) :
    (s.unregister x).dialbackRequests = s.dialbackRequests := by
  unfold unregister
  split <;> rfl

theorem destroySession_sessions (s : State) (i j : ℕ) :
    (s.destroySession i).sessions j = s.sessions j ∨ (s.destroySession i).sessions j = {} := by
  unfold destroySession
  split
  · exact .inl rfl
  · by_cases hj : j = i
    · subst hj
      exact .inr (amend_same _ _ _)
    · left
      rw [amend_other _ hj, unregister_sessions]

theorem destroySession_opened (s : State) (i : ℕ) : (s.destroySession i).opened = s.opened := by
  unfold destroySession
  split <;> simp [amend]

theorem destroySession_requests (s : State) (i : ℕ) :
    (s.destroySession i).dialbackRequests = s.dialbackRequests := by
  unfold destroySession
  split <;> simp [amend]

theorem ages_destroySession (s : State) (i : ℕ) : Ages s (s.destroySession i) where
  opened := destroySession_opened s i
  requests key j h := by rwa [destroySession_requests] at h
  keeps j := by
    rcases destroySession_sessions s i j with h | h
    · rw [h]
      exact Keeps.refl _
    · rw [h]
      exact .inl rfl

theorem quiet_destroySession (s : State) (i : ℕ) : Quiet s (s.destroySession i) := by
  intro j host ha
  rcases destroySession_sessions s i j with h | h
  · rwa [h] at ha
  · simp [h, Session.authed] at ha

theorem destroySession_type (s : State) (i : ℕ) :
    ((s.destroySession i).sessions i).type = .s2sDestroyed := by
  unfold destroySession
  split
  · assumption
  · rw [amend_same]

/-! ## Handlers -/

theorem ages_send (s : State) (m : Sent) : Ages s (s.send m) :=
  ⟨rfl, fun _ _ h => h, fun i => Keeps.refl (s.sessions i)⟩

theorem quiet_send (s : State) (m : Sent) : Quiet s (s.send m) := fun _ _ h => h

theorem ages_accept (s : State) (i : ℕ) (host : String) : Ages s (s.accept i host) := by
  unfold accept
  split
  · rename_i htype
    refine ages_amend s (.inr ⟨?_, ?_, rfl⟩) <;> simp [Session.Incoming, Session.Outgoing, htype]
  · rename_i htype
    refine ages_amend s (.inr ⟨?_, ?_, rfl⟩) <;> simp [Session.Incoming, Session.Outgoing, htype]
  · rename_i htype
    refine ages_amend s (.inr ⟨?_, ?_, rfl⟩) <;> simp [Session.Incoming, Session.Outgoing, htype]
  · exact Ages.refl s
  · exact Ages.refl s

variable {host : String}

variable {host' : String}

theorem authed_set {x : Session} {t : SessionType} {status : HostStatus}
    (h : Session.authed { x with type := t, hosts := x.hosts.set host (some status) } host') :
    x.authed host' ∨ host' = host ∧ status.authed := by
  simp only [Session.authed, Table.get_set] at h
  split at h
  · exact .inr ⟨‹_›, by simpa using h⟩
  · exact .inl h

/-- The only name that is accepted anew is the given one, on an incoming session. -/
theorem authed_accept {s : State} {j : ℕ} (h : ((s.accept i host).sessions j).authed host') :
    (s.sessions j).authed host' ∨ j = i ∧ host' = host ∧ (s.sessions i).Incoming := by
  by_cases hj : j = i
  · subst hj
    unfold accept at h
    split at h
    · rw [amend_same] at h
      exact .inl h
    · rw [amend_same] at h
      rename_i htype
      exact (authed_set h).imp_right fun h => ⟨rfl, h.1, .inl htype⟩
    · rw [amend_same] at h
      rename_i htype
      exact (authed_set h).imp_right fun h => ⟨rfl, h.1, .inr htype⟩
    · exact .inl h
    · exact .inl h
  · left
    unfold accept at h
    split at h
    all_goals first | exact h | rwa [amend_other s hj] at h

theorem ages_makeAuthenticated (c : Config) (s : State) (i : ℕ) (host : String)
    (permitted : Bool) : Ages s (s.makeAuthenticated c i host permitted) := by
  unfold makeAuthenticated
  split
  · exact ages_accept s i host
  · exact (ages_destroySession s i).trans (ages_accept _ i host)

theorem authed_makeAuthenticated {c : Config} {s : State} {j : ℕ}
    {permitted : Bool} (h : ((s.makeAuthenticated c i host permitted).sessions j).authed host') :
    (s.sessions j).authed host' ∨ j = i ∧ host' = host ∧ (s.sessions i).Incoming := by
  unfold makeAuthenticated at h
  split at h
  · exact authed_accept h
  · rcases authed_accept h with h | ⟨-, -, hin⟩
    · exact .inl (quiet_destroySession s i j host' h)
    · simp [Session.Incoming, destroySession_type] at hin

theorem ages_initiateDialback (c : Config) (s : State) (i : ℕ) :
    Ages s (s.initiateDialback c i) ∧ Quiet s (s.initiateDialback c i) := by
  unfold initiateDialback
  split
  · rename_i id toHost fromHost _ _ _
    constructor
    · exact (ages_amend s (.inr ⟨Iff.rfl, Iff.rfl, rfl⟩)).trans (ages_send _ _)
    · exact (quiet_amend s fun _ h => h).trans (quiet_send _ _)
  · exact ⟨Ages.refl s, fun _ _ h => h⟩

theorem ages_resultOutgoing (c : Config) (s : State) (el : Element) (permitted : Bool)
    (hout : (s.sessions i).Outgoing) : Ages s (s.resultOutgoing c i el permitted) ∧
      Quiet s (s.resultOutgoing c i el permitted) := by
  have hdestroy := And.intro (ages_destroySession s i) (quiet_destroySession s i)
  unfold resultOutgoing
  split
  · rename_i toHost fromHost _ _
    split_ifs
    · exact hdestroy
    · exact hdestroy
    · refine ⟨ages_makeAuthenticated c s i fromHost permitted, ?_⟩
      intro j host h
      rcases authed_makeAuthenticated h with h | ⟨-, -, hin⟩
      · exact h
      · exact absurd hout hin.not_outgoing
    · exact hdestroy
  · exact hdestroy

theorem ages_verifyIncoming (c : Config) (s : State) (i : ℕ) (el : Element) :
    Ages s (s.verifyIncoming c i el) ∧ Quiet s (s.verifyIncoming c i el) := by
  unfold verifyIncoming
  split
  · exact ⟨ages_send _ _, quiet_send _ _⟩
  · exact ⟨Ages.refl s, fun _ _ h => h⟩

theorem requests_set_none {t : Table String ℕ} {key key' : String}
    (h : (t.set key none).get key' = some i) : t.get key' = some i := by
  rw [Table.get_set] at h
  split at h
  · exact absurd h (by simp)
  · exact h

theorem ages_forget (s : State) (key : String) :
    Ages s (s.forget key) ∧ Quiet s (s.forget key) :=
  ⟨⟨rfl, fun _ _ h => requests_set_none h, fun i => Keeps.refl (s.sessions i)⟩,
    fun _ _ h => h⟩

theorem ages_notify (s : State) (j : ℕ) (fromHost : String) (el : Element) :
    Ages s (s.notify j fromHost el) ∧ Quiet s (s.notify j fromHost el) := by
  simp only [notify]
  split
  · exact ages_forget s _
  · split
    · exact ⟨Ages.refl s, fun _ _ h => h⟩
    · have hforget := ages_forget
      exact ⟨(ages_send s _).trans (hforget _ _).1, (quiet_send s _).trans (hforget _ _).2⟩

theorem ages_verifyOutgoing (c : Config) (s : State) (i : ℕ) (el : Element)
    (permitted : Bool) : Ages s (s.verifyOutgoing c i el permitted) := by
  unfold verifyOutgoing
  split
  · exact Ages.refl s
  · rename_i fromHost _
    split
    · exact Ages.refl s
    · rename_i j _
      split_ifs
      · exact (ages_makeAuthenticated c s j fromHost permitted).trans (ages_notify _ _ _ _).1
      · exact (ages_notify _ _ _ _).1
      · exact Ages.refl s

/-- A name is accepted on the session whose request the verdict finds. -/
theorem authed_verifyOutgoing {c : Config} {s : State} {j : ℕ} {el : Element} {permitted : Bool}
    (h : ((s.verifyOutgoing c i el permitted).sessions j).authed host) :
    (s.sessions j).authed host ∨
      el.attrFrom = some host ∧ (s.sessions i).toHost = some host ∧ el.type = some .valid ∧
        s.dialbackRequests.get (requestKey host (el.id.getD "")) = some j ∧
        (s.sessions j).Incoming := by
  unfold verifyOutgoing at h
  split at h
  · exact .inl h
  · rename_i fromHost hfrom
    split at h
    · exact .inl h
    · rename_i k hk
      split_ifs at h with hhost hvalid
      · have hauth := (ages_notify _ _ _ _).2 j host h
        rcases authed_makeAuthenticated hauth with h | ⟨rfl, rfl, hin⟩
        · exact .inl h
        · exact .inr ⟨hfrom, hhost, hvalid, hk, hin⟩
      · exact .inl ((ages_notify _ _ _ _).2 j host h)
      · exact .inl h

/-- A `db:result` closes the session, or enters a name that is not accepted yet, and a
request where the stream has an id. -/
theorem resultIncoming_cases (c : Config) (s : State) (i : ℕ) (el : Element) :
    s.resultIncoming c i el = s.destroySession i ∨
      ∃ host, el.attrFrom.bind c.nameprep = some host ∧
        (s.resultIncoming c i el).sessions = (s.amend i fun x =>
          { x with hosts := x.hosts.set host (some { dialbackKey := el.text }) }).sessions ∧
        (s.resultIncoming c i el).opened = s.opened ∧
        ((s.resultIncoming c i el).dialbackRequests = s.dialbackRequests ∨
          ∃ id, (s.sessions i).streamid = some id ∧
            (s.resultIncoming c i el).dialbackRequests =
              s.dialbackRequests.set (requestKey host id) (some i)) := by
  unfold resultIncoming
  split
  · exact .inl rfl
  · exact .inl rfl
  · rename_i toHost fromHost _ hfrom
    refine .inr ⟨fromHost, hfrom, ?_⟩
    simp only [amend_same]
    split
    · exact ⟨rfl, rfl, .inl rfl⟩
    · rename_i id hid
      exact ⟨rfl, rfl, .inr ⟨id, hid, rfl⟩⟩

theorem quiet_resultIncoming (c : Config) (s : State) (i : ℕ) (el : Element) :
    Quiet s (s.resultIncoming c i el) := by
  rcases resultIncoming_cases c s i el with h | ⟨host, -, hsessions, -, -⟩
  · rw [h]
    exact quiet_destroySession s i
  · intro j host' ha
    rw [hsessions] at ha
    refine quiet_amend s (fun host'' ha => ?_) j host' ha
    exact (authed_set (t := (s.sessions i).type) ha).resolve_right (by simp)

end State

/-! ## Claims and verdicts -/

/-- The peer of session `i` claimed the name on the stream with this id. -/
def Claimed (c : Config) (past : List Event) (i : ℕ) (host id : String) : Prop :=
  ∃ before el permitted, before ++ [.result i el permitted] <+: past ∧
    el.attrFrom.bind c.nameprep = some host ∧
    ((run (State.step c) {} before).sessions i).Incoming ∧
    ((run (State.step c) {} before).sessions i).streamid = some id

/-- The event is the verdict that the name is valid. It comes from the server of that name,
bears the id of the session's stream, and answers a claim made on that stream. -/
def Answers (c : Config) (past : List Event) (i : ℕ) (host : String) (e : Event) : Prop :=
  ∃ o el permitted id, e = .verify o el permitted ∧
    ((run (State.step c) {} past).sessions o).Outgoing ∧
    ((run (State.step c) {} past).sessions o).toHost = some host ∧
    el.attrFrom = some host ∧ el.type = some .valid ∧ el.id = some id ∧
    ((run (State.step c) {} past).sessions i).streamid = some id ∧ Claimed c past i host id

/-- Whenever a name becomes accepted, the event is such a verdict. -/
def Bound (c : Config) (es : List Event) : Prop :=
  ∀ past e, past ++ [e] <+: es → ∀ i host,
    ¬((run (State.step c) {} past).sessions i).authed host →
    ((run (State.step c) {} (past ++ [e])).sessions i).authed host →
    Answers c past i host e

/-- A verdict whose id has a slash finds no request of a session that is alive, and a stream
is not restarted while its session has a request. -/
def State.Unambiguous (s : State) : Event → Prop
  | .verify o el _ => ∀ host i, el.attrFrom = some host → (s.sessions o).toHost = some host →
      el.type = some .valid → '/' ∈ (el.id.getD "").toList →
      s.dialbackRequests.get (requestKey host (el.id.getD "")) = some i →
      (s.sessions i).type = .s2sDestroyed
  | .restart i => (s.sessions i).Incoming → ∀ key, s.dialbackRequests.get key ≠ some i
  | _ => True

/-- Incoming streams have ids without slashes, and each request is that of a claim on the
present stream of a session, unless the session has been destroyed. -/
structure Recorded (c : Config) (past : List Event) (s : State) : Prop where
  reached : s = run (State.step c) {} past
  live : ∀ i, (s.sessions i).type ≠ .s2sDestroyed → i < s.opened
  streams : ∀ i id, (s.sessions i).Incoming → (s.sessions i).streamid = some id →
    '/' ∉ id.toList ∧ id ≠ ""
  requests : ∀ key i, s.dialbackRequests.get key = some i → i < s.opened ∧
    ∃ host id, key = requestKey host id ∧ '/' ∉ id.toList ∧ id ≠ "" ∧
      Claimed c past i host id ∧
      ((s.sessions i).type = .s2sDestroyed ∨
        (s.sessions i).Incoming ∧ (s.sessions i).streamid = some id)

variable {past : List Event}

variable {i : ℕ}

theorem Claimed.snoc
    (h : Claimed c past i host id) (e : Event) : Claimed c (past ++ [e]) i host id := by
  obtain ⟨before, el, permitted, hpre, hclaim⟩ := h
  exact ⟨before, el, permitted, hpre.trans (List.prefix_append _ _), hclaim⟩

theorem Session.Incoming.live (h : x.Incoming) : x.type ≠ .s2sDestroyed :=
  fun hd => (x.destroyed_iff.mp hd).1 h

theorem recorded_init (c : Config) : Recorded c [] {} where
  reached := rfl
  live i h := absurd rfl h
  streams i id h := absurd rfl h.live
  requests key i h := by simp at h

variable {e : Event} {s : State}

/-- What a step has to respect. The sessions with requests go on or are destroyed. -/
theorem Recorded.next (h : Recorded c past s)
    (hlive : ∀ i, ((s.step c e).sessions i).type ≠ .s2sDestroyed → i < (s.step c e).opened)
    (hopened : s.opened ≤ (s.step c e).opened)
    (hstreams : ∀ i id, ((s.step c e).sessions i).Incoming →
      ((s.step c e).sessions i).streamid = some id →
        (s.sessions i).Incoming ∧ (s.sessions i).streamid = some id ∨
          ∃ random, id = uuidGenerate random)
    (hrequests : ∀ key i, (s.step c e).dialbackRequests.get key = some i →
      s.dialbackRequests.get key = some i ∨
        ∃ host id el permitted, e = .result i el permitted ∧ key = requestKey host id ∧
          el.attrFrom.bind c.nameprep = some host ∧ (s.sessions i).Incoming ∧
          (s.sessions i).streamid = some id)
    (hkeeps : ∀ key i, i < s.opened → (s.step c e).dialbackRequests.get key = some i →
      (s.sessions i).type = .s2sDestroyed ∨
        (s.sessions i).Incoming ∧ (s.sessions i).streamid ≠ none →
      Keeps (s.sessions i) ((s.step c e).sessions i)) : Recorded c (past ++ [e]) (s.step c e) where
  reached := by
    rw [run_append, ← h.reached]
    rfl
  live := hlive
  streams := by
    intro i id hin hid
    rcases hstreams i id hin hid with ⟨hin, hid⟩ | ⟨random, rfl⟩
    · exact h.streams i id hin hid
    · exact ⟨slash_notMem_uuidGenerate random, uuidGenerate_ne_empty random⟩
  requests := by
    intro key i hkey
    have hold : i < s.opened ∧ ∃ host id, key = requestKey host id ∧ '/' ∉ id.toList ∧ id ≠ "" ∧
        Claimed c (past ++ [e]) i host id ∧
        ((s.sessions i).type = .s2sDestroyed ∨
          (s.sessions i).Incoming ∧ (s.sessions i).streamid = some id) := by
      rcases hrequests key i hkey with hkey | ⟨host, id, el, permitted, rfl, rfl, hel, hin, hid⟩
      · obtain ⟨hi, host, id, hk, hslash, hne, hclaim, hsession⟩ := h.requests key i hkey
        exact ⟨hi, host, id, hk, hslash, hne, hclaim.snoc e, hsession⟩
      · obtain ⟨hslash, hne⟩ := h.streams i id hin hid
        refine ⟨h.live i hin.live, host, id, rfl, hslash, hne, ?_, .inr ⟨hin, hid⟩⟩
        rw [h.reached] at hin hid
        exact ⟨past, el, permitted, List.prefix_rfl, hel, hin, hid⟩
    obtain ⟨hi, host, id, hk, hslash, hne, hclaim, hsession⟩ := hold
    refine ⟨lt_of_lt_of_le hi hopened, host, id, hk, hslash, hne, hclaim, ?_⟩
    have hstream : (s.sessions i).type = .s2sDestroyed ∨
        (s.sessions i).Incoming ∧ (s.sessions i).streamid ≠ none :=
      hsession.imp_right fun (hs : _ ∧ (s.sessions i).streamid = some id) =>
        ⟨hs.1, hs.2 ▸ Option.some_ne_none id⟩
    rcases hkeeps key i hi hkey hstream with hdead | ⟨hin, hout, hid⟩
    · exact .inl hdead
    · rcases hsession with hdead | ⟨hin', hid'⟩
      · refine .inl ((State.sessions _ i).destroyed_iff.mpr ?_)
        rw [hin, hout]
        exact (s.sessions i).destroyed_iff.mp hdead
      · exact .inr ⟨hin.mpr hin', hid.trans hid'⟩

theorem Recorded.ages (h : Recorded c past s) (hages : s.Ages (s.step c e)) :
    Recorded c (past ++ [e]) (s.step c e) := by
  refine h.next ?_ hages.opened.ge ?_ (fun key i hk => .inl (hages.requests key i hk))
    (fun _ i _ _ _ => hages.keeps i)
  · intro i hi
    rw [hages.opened]
    exact h.live i ((hages.keeps i).live hi)
  · intro i id hin hid
    obtain ⟨hin', hid'⟩ := (hages.keeps i).incoming hin
    exact .inl ⟨hin', hid'.trans hid⟩

theorem Recorded.newSession (h : Recorded c past s) (hx : x.streamid = none)
    (hsessions : (s.step c e).sessions = Function.update s.sessions s.opened x)
    (hopened : (s.step c e).opened = s.opened + 1)
    (hrequests : (s.step c e).dialbackRequests = s.dialbackRequests) :
    Recorded c (past ++ [e]) (s.step c e) := by
  refine h.next ?_ (by omega) ?_ (fun key i hk => .inl (hrequests ▸ hk)) ?_
  · intro i hi
    rw [hopened]
    by_cases hio : i = s.opened
    · exact hio ▸ Nat.lt_succ_self _
    · rw [hsessions, Function.update_of_ne hio] at hi
      exact Nat.lt_succ_of_lt (h.live i hi)
  · intro i id hin hid
    by_cases hio : i = s.opened
    · rw [hsessions, hio, Function.update_self, hx] at hid
      exact absurd hid (by simp)
    · rw [hsessions, Function.update_of_ne hio] at hin hid
      exact .inl ⟨hin, hid⟩
  · intro key i hi _ _
    rw [hsessions, Function.update_of_ne (Nat.ne_of_lt hi)]
    exact Keeps.refl _

theorem Recorded.stream (h : Recorded c past s) {u : Option String}
    (hstep : s.step c e = s.amend i fun x => { x with streamid := u })
    (hid : (s.sessions i).Incoming → ∀ id' ∈ u, ∃ random, id' = uuidGenerate random)
    (hfree : (s.sessions i).type = .s2sDestroyed ∨
      ∀ key, s.dialbackRequests.get key = some i →
        ¬((s.sessions i).Incoming ∧ (s.sessions i).streamid ≠ none)) :
    Recorded c (past ++ [e]) (s.step c e) := by
  refine h.next ?_ (by rw [hstep]; rfl) ?_ (fun key j hk => .inl (by rw [hstep] at hk; exact hk)) ?_
  · intro j hj
    rw [hstep] at hj ⊢
    by_cases hji : j = i
    · rw [hji, State.amend_same] at hj
      exact hji ▸ h.live i hj
    · rw [State.amend_other s hji] at hj
      exact h.live j hj
  · intro j id' hin hid'
    rw [hstep] at hin hid'
    by_cases hji : j = i
    · rw [hji, State.amend_same] at hin hid'
      exact .inr (hid hin id' hid')
    · rw [State.amend_other s hji] at hin hid'
      exact .inl ⟨hin, hid'⟩
  · intro key j _ hk hsession
    rw [hstep] at hk ⊢
    by_cases hji : j = i
    · subst hji
      rcases hsession with hdead | hlive
      · exact .inl (by rwa [State.amend_same])
      · rcases hfree with hdead | hfree
        · exact absurd hdead hlive.1.live
        · exact absurd hlive (hfree key hk)
    · rw [State.amend_other s hji]
      exact Keeps.refl _

theorem Recorded.resultIncoming
    {el : Element} {permitted : Bool} (h : Recorded c past s) (hin : (s.sessions i).Incoming) :
    Recorded c (past ++ [Event.result i el permitted]) (s.step c (.result i el permitted)) := by
  have hstep : s.step c (.result i el permitted) = s.resultIncoming c i el := by
    simp [State.step, hin]
  rcases s.resultIncoming_cases c i el with hd | ⟨host, hhost, hsessions, hopened, hrequests⟩
  · exact h.ages (by rw [hstep, hd]; exact s.ages_destroySession i)
  · have hkeeps : ∀ j, Keeps (s.sessions j) ((s.resultIncoming c i el).sessions j) := by
      rw [hsessions]
      exact (s.ages_amend (.inr ⟨Iff.rfl, Iff.rfl, rfl⟩)).keeps
    rw [← hstep] at hkeeps hopened hrequests
    refine h.next ?_ hopened.ge ?_ ?_ (fun _ j _ _ _ => hkeeps j)
    · intro j hj
      rw [hopened]
      exact h.live j ((hkeeps j).live hj)
    · intro j id hj hid
      obtain ⟨hin', hid'⟩ := (hkeeps j).incoming hj
      exact .inl ⟨hin', hid'.trans hid⟩
    · intro key j hk
      rcases hrequests with hsame | ⟨id, hid, hset⟩
      · exact .inl (hsame ▸ hk)
      · rw [hset, Table.get_set] at hk
        split at hk
        · rename_i hkey
          obtain rfl : i = j := Option.some_inj.mp hk
          exact .inr ⟨host, id, el, permitted, rfl, hkey, hhost, hin, hid⟩
        · exact .inl hk

/-- Requests are recorded along a run in which no stream with a request is restarted. -/
theorem Recorded.step (h : Recorded c past s)
    (e : Event) (hok : s.Unambiguous e) : Recorded c (past ++ [e]) (s.step c e) := by
  cases e with
  | incoming => exact h.newSession (x := { type := .s2sinUnauthed }) rfl rfl rfl rfl
  | outgoing fromHost toHost =>
    exact h.newSession
      (x := { type := .s2soutUnauthed, fromHost := some fromHost, toHost := some toHost })
      rfl rfl rfl rfl
  | openedIncoming i random =>
    by_cases hopen : (s.sessions i).Incoming ∧ (s.sessions i).streamid = none
    · refine h.stream (i := i) (u := some (uuidGenerate random)) (by simp [State.step, hopen])
        ?_ (.inr fun _ _ hlive => hlive.2 hopen.2)
      rintro - id' ⟨⟩
      exact ⟨random, rfl⟩
    · exact h.ages (by simp [State.step, hopen, State.Ages.refl])
  | openedOutgoing i id =>
    by_cases hopen : (s.sessions i).Outgoing ∧ (s.sessions i).streamid = none
    · exact h.stream (i := i) (u := some id) (by simp [State.step, hopen])
        (fun hin => absurd hopen.1 hin.not_outgoing)
        (.inr fun _ _ hlive => hlive.2 hopen.2)
    · exact h.ages (by simp [State.step, hopen, State.Ages.refl])
  | restart i =>
    refine h.stream (i := i) (u := none) rfl (by simp) (.inr fun key hk hlive => ?_)
    exact hok hlive.1 key hk
  | initiate i =>
    refine h.ages ?_
    simp only [State.step]
    split
    · exact (s.ages_initiateDialback c i).1
    · exact State.Ages.refl s
  | result i el permitted =>
    by_cases hin : (s.sessions i).Incoming
    · exact h.resultIncoming hin
    · refine h.ages ?_
      simp only [State.step, hin, if_false]
      split
      · rename_i hout
        exact (s.ages_resultOutgoing c el permitted hout).1
      · exact State.Ages.refl s
  | verify i el permitted =>
    refine h.ages ?_
    simp only [State.step]
    split_ifs
    · exact (s.ages_verifyIncoming c i el).1
    · exact s.ages_verifyOutgoing c i el permitted
    · exact State.Ages.refl s
  | destroy i => exact h.ages (s.ages_destroySession i)
  | collect key =>
    refine h.ages ?_
    simp only [State.step, State.collect]
    split
    · split
      · exact (s.ages_forget key).1
      · exact State.Ages.refl s
    · exact State.Ages.refl s

/-- The only events that make a name accepted are verdicts on outgoing sessions. -/
theorem authed_step
    (hold : ¬(s.sessions i).authed host) (hnew : ((s.step c e).sessions i).authed host) :
    ∃ o el permitted, e = .verify o el permitted ∧ (s.sessions o).Outgoing ∧
      el.attrFrom = some host ∧ (s.sessions o).toHost = some host ∧ el.type = some .valid ∧
      s.dialbackRequests.get (requestKey host (el.id.getD "")) = some i ∧
      (s.sessions i).Incoming := by
  have hquiet : ¬s.Quiet (s.step c e) := fun hq => hold (hq i host hnew)
  have hfresh : ∀ x : Session, (∀ host, ¬x.authed host) →
      (s.step c e).sessions ≠ Function.update s.sessions s.opened x := by
    intro x hx hsessions
    refine hquiet fun j host' ha => ?_
    rw [hsessions] at ha
    by_cases hj : j = s.opened
    · rw [hj, Function.update_self] at ha
      exact absurd ha (hx host')
    · rwa [Function.update_of_ne hj] at ha
  cases e with
  | incoming => exact absurd rfl (hfresh { type := .s2sinUnauthed } (by simp [Session.authed]))
  | outgoing fromHost toHost =>
    exact absurd rfl (hfresh
      { type := .s2soutUnauthed, fromHost := some fromHost, toHost := some toHost }
      (by simp [Session.authed]))
  | openedIncoming j random =>
    refine absurd ?_ hquiet
    simp only [State.step]
    split
    · exact s.quiet_amend fun _ h => h
    · exact fun _ _ h => h
  | openedOutgoing j id =>
    refine absurd ?_ hquiet
    simp only [State.step]
    split
    · exact s.quiet_amend fun _ h => h
    · exact fun _ _ h => h
  | restart j =>
    exact absurd (s.quiet_amend (i := j) (f := fun x => { x with streamid := none })
      fun _ h => h) hquiet
  | initiate j =>
    refine absurd ?_ hquiet
    simp only [State.step]
    split
    · exact (s.ages_initiateDialback c j).2
    · exact fun _ _ h => h
  | result j el permitted =>
    refine absurd ?_ hquiet
    simp only [State.step]
    split_ifs with _ hout
    · exact s.quiet_resultIncoming c j el
    · exact (s.ages_resultOutgoing c el permitted hout).2
    · exact fun _ _ h => h
  | verify o el permitted =>
    simp only [State.step] at hnew
    split_ifs at hnew with hin hout
    · exact absurd ((s.ages_verifyIncoming c o el).2 i host hnew) hold
    · obtain ⟨hfrom, hto, hvalid, hreq, hi⟩ :=
        (State.authed_verifyOutgoing hnew).resolve_left hold
      exact ⟨o, el, permitted, rfl, hout, hfrom, hto, hvalid, hreq, hi⟩
    · exact absurd hnew hold
  | destroy j => exact absurd (s.quiet_destroySession j) hquiet
  | collect key =>
    refine absurd ?_ hquiet
    simp only [State.step, State.collect]
    split
    · split
      · exact (s.ages_forget key).2
      · exact fun _ _ h => h
    · exact fun _ _ h => h

/-- An unambiguous verdict that makes a name accepted answers a claim of the session. -/
theorem Recorded.answers (h : Recorded c past s) (hok : s.Unambiguous e)
    (hold : ¬(s.sessions i).authed host) (hnew : ((s.step c e).sessions i).authed host) :
    Answers c past i host e := by
  obtain ⟨o, el, permitted, rfl, hout, hfrom, hto, hvalid, hreq, hin⟩ := authed_step hold hnew
  have hslash : '/' ∉ (el.id.getD "").toList := by
    intro hmem
    exact hin.live (hok host i hfrom hto hvalid hmem hreq)
  obtain ⟨-, host', id, hkey, hslash', hne, hclaim, hsession⟩ := h.requests _ i hreq
  obtain ⟨rfl, hid⟩ := requestKey_inj hslash hslash' hkey
  have hid' : el.id = some id := by
    cases hel : el.id with
    | none => exact absurd (by simpa [hel] using hid.symm) hne
    | some id' => simpa [hel] using hid
  have hstream : (s.sessions i).streamid = some id :=
    (hsession.resolve_left hin.live).2
  rw [h.reached] at hout hto hstream
  exact ⟨o, el, permitted, id, rfl, hout, hto, hfrom, hvalid, hid', hstream, hclaim⟩

/-- In a run of unambiguous verdicts every name is accepted in answer to a claim, and our
keys verify for what they were made of and nothing else. -/
theorem dialback_binds (c : Config)
    (hinj : Function.Injective (c.sha256Hmac c.dialbackSecret)) (es : List Event)
    (h : Guarded (State.step c) State.Unambiguous {} es) :
    Bound c es ∧
      ∀ id toHost fromHost id' toHost' fromHost' : String,
        ' ' ∉ toHost.toList → ' ' ∉ toHost'.toList → ' ' ∉ fromHost.toList →
        ' ' ∉ fromHost'.toList →
          (verifyDialback c id toHost fromHost
              (some (generateDialback c id' toHost' fromHost')) ↔
            id = id' ∧ toHost = toHost' ∧ fromHost = fromHost') := by
  constructor
  · intro past e hpre i host hold hnew
    have hrecorded : Recorded c past (run (State.step c) {} past) :=
      history_of_guarded (fun _ _ e hr hok => hr.step e hok) (recorded_init c) h past
        ((List.prefix_append past [e]).trans hpre)
    rw [run_append] at hnew
    exact hrecorded.answers (h.of_prefix hpre) hold hnew
  · intro id toHost fromHost id' toHost' fromHost' hto hto' hfrom hfrom'
    exact verifyDialback_generateDialback hinj hto hto' hfrom hfrom'

/-! ## Two runs -/

/-- The secret of a server, as `sha256_hash` makes it from the configured one. -/
def secret : String := "a7136eb1f46c9ef18c5e78c36ca257067c69b3d518285f0b18a96c33beae9acc"

/-- What the server of `montague.example` sends to that of `capulet.example` on a stream
with the id `r0me0`. -/
def romeoKey : String := "b1b60c2180194379edaf5d6ae018f33c7dfd60064a483bee821a85e8274325d4"

/-- The hash of one message, and a stand-in for that of the others. -/
def hmac (_ message : String) : String :=
  if message = "capulet.example montague.example r0me0" then romeoKey else "~" ++ message

/-- A server for `montague.example`, where names are prepared already. -/
def montague : Config where
  nameprep := some
  hosts host := host == "montague.example"
  sha256Hmac := hmac
  dialbackSecret := secret

theorem hmac_injective : Function.Injective (hmac secret) := by
  have htilde : ∀ m, romeoKey ≠ "~" ++ m := by
    intro m h
    have := congrArg (fun k => k.toList.head?) h
    simp [romeoKey] at this
  intro m m' h
  simp only [hmac] at h
  split_ifs at h with hm hm' hm'
  · exact hm.trans hm'.symm
  · exact absurd h (htilde m')
  · exact absurd h.symm (htilde m)
  · simpa using h

/-- The random digits of a stream. -/
def zeros : ℕ → Fin 16 := fun _ => 0

/-- Both servers claim their names, and `capulet.example` is accepted. -/
def bothWays : List Event :=
  [.incoming, .openedIncoming 0 zeros, .outgoing "montague.example" "capulet.example",
    .openedOutgoing 1 "r0me0", .initiate 1,
    .result 0 { attrTo := some "montague.example", attrFrom := some "capulet.example",
                text := some "jul1et" } true,
    .verify 1 { attrTo := some "montague.example", attrFrom := some "capulet.example",
                id := some (uuidGenerate zeros), type := some .valid } true]

theorem dialback_binds_bothWays :
    Bound montague bothWays ∧
      verifyDialback montague "r0me0" "capulet.example" "montague.example" (some romeoKey) ∧
      ((run (State.step montague) {} bothWays).sessions 0).authed "capulet.example" := by
  have hguard : Guarded (State.step montague) State.Unambiguous {} bothWays := by
    refine ⟨trivial, trivial, trivial, trivial, trivial, trivial, ?_, trivial⟩
    intro host i _ _ _ hslash
    exact absurd hslash (slash_notMem_uuidGenerate zeros)
  obtain ⟨hbound, hverify⟩ := dialback_binds montague hmac_injective bothWays hguard
  have hkey := (hverify "r0me0" "capulet.example" "montague.example" "r0me0" "capulet.example"
    "montague.example" (by decide) (by decide) (by decide) (by decide)).mpr ⟨rfl, rfl, rfl⟩
  exact ⟨hbound, hkey, by decide +kernel⟩

def slashClaim : List Event :=
  [.incoming, .openedIncoming 0 zeros, .outgoing "montague.example" "capulet.example",
    .openedOutgoing 1 "r0me0",
    .result 0 { attrTo := some "montague.example", attrFrom := some "capulet.example/x",
                text := some "jul1et" } true]

/-- Another server takes the second part of the name for a part of the id. -/
def slashVerdict : Element :=
  { attrTo := some "montague.example", attrFrom := some "capulet.example",
    id := some ("x/" ++ uuidGenerate zeros), type := some .valid }

theorem slash_confuses : ¬∀ es, Bound montague es := by
  intro h
  obtain ⟨o, el, permitted, id, he, -, -, -, -, hid, hstream, -⟩ :=
    h (slashClaim ++ [Event.verify 1 slashVerdict true]) slashClaim (.verify 1 slashVerdict true)
      List.prefix_rfl 0 "capulet.example" (by decide +kernel) (by decide +kernel)
  obtain ⟨-, rfl, -⟩ := Event.verify.inj he
  have hsame : ((run (State.step montague) {} slashClaim).sessions 0).streamid =
      some (uuidGenerate zeros) := by
    decide +kernel
  rw [hsame, ← hid] at hstream
  exact absurd hstream (by decide +kernel)

end Prosody.Dialback
