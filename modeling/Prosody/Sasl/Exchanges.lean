import Prosody.Sasl.Session

/-! # Exchanges on a client stream

An exchange begins with an `auth` and consists of the contents of that element and the
responses after it. What the handler holds is the result of these contents, and nothing
before the `auth` plays a part. -/

namespace Prosody.Sasl

open Machine

variable {ω π σ : Type}

/-! ## What an exchange is -/

/-- The content that an element brings to the exchange. -/
def Event.input (c : Config ω π σ) : Event ω → Option (ω × Option String)
  | .auth _ text w => (c.decode text).map fun message => (w, message)
  | .response text w => (c.decode text).map fun message => (w, message)
  | _ => none

/-- An exchange does not continue over these. -/
def Event.Interrupts : Event ω → Prop
  | .auth _ _ _ | .abort => True
  | _ => False

/-- The handler after it has processed these contents. -/
def converse (c : Config ω π σ) (h : Handler π σ) (inputs : List (ω × Option String)) :
    Handler π σ :=
  inputs.foldl (fun h i => (h.process c.registeredMechanisms i.1 i.2).1) h

/-- The options keep the mechanism neither from everyone nor from this session. -/
def Allowed (c : Config ω π σ) (s : Session π σ) (mechanism : String) : Prop :=
  c.forbids s.isSecure (some mechanism) = false ∧ c.disables (some mechanism) = false

/-- A new handler from the provider, apart from channel bindings. -/
def Provided (c : Config ω π σ) (h : Handler π σ) : Prop :=
  ∃ w cb, h = .new (c.provider w).1 { (c.provider w).2 with cb := cb }

/-- The run ends in an exchange: an `auth` whose mechanism was allowed then, and no other
`auth` and no `abort` after it. The handler it started with is a new one in which the
mechanism has been selected. -/
def Begun (c : Config ω π σ) (start : Session π σ) (past : List (Event ω)) (mechanism : String)
    (h : Handler π σ) (inputs : List (ω × Option String)) : Prop :=
  (∃ h', Provided c h' ∧ h = { h' with selected := some mechanism }) ∧
  ∃ before text w rest, past = before ++ .auth (some mechanism) text w :: rest ∧
    Allowed c (run (Session.step c) start before) mechanism ∧
    (∀ e ∈ rest, ¬e.Interrupts) ∧
    inputs = (.auth (some mechanism) text w :: rest).filterMap (Event.input c)

/-- Whenever the session gets a user name, the last content of an exchange made the mechanism
report success, and the name is what `name` makes of the handler's. -/
def Authenticates (c : Config ω π σ) (name : Option String → Option String)
    (start : Session π σ) (es : List (Event ω)) : Prop :=
  ∀ past e, past ++ [e] <+: es → ∀ u,
    (run (Session.step c) start past).username ≠ some u →
    (run (Session.step c) start (past ++ [e])).username = some u →
    ∃ mechanism h inputs w message,
      Begun c start (past ++ [e]) mechanism h (inputs ++ [(w, message)]) ∧
      ((converse c h inputs).process c.registeredMechanisms w message).2.status = .success ∧
      name ((converse c h inputs).process c.registeredMechanisms w message).1.exchange.username =
        some u

/-- The session answers the event with a failure. -/
def Fails (c : Config ω π σ) (s : Session π σ) (e : Event ω) : Prop :=
  ∃ r, (s.step c e).sent = s.sent ++ [.reply r] ∧ r.name = .failure

/-- After a failure every response is refused until the next `auth`. -/
def Refuses (c : Config ω π σ) (start : Session π σ) (es : List (Event ω)) : Prop :=
  ∀ past e rest, past ++ e :: rest <+: es → Fails c (run (Session.step c) start past) e →
    (∀ e' ∈ rest, ∀ mechanism text w, e' ≠ .auth mechanism text w) → ∀ text w,
    let s := run (Session.step c) start (past ++ e :: rest)
    s.type ≠ .c2sDestroyed → s.step c (.response text w) =
      s.refuse "not-authorized" (some "Out of order SASL element")

/-! ## Handlers -/

@[simp] theorem Handler.process_selected (reg : Mechanisms ω π σ) (h : Handler π σ) (w : ω)
    (message : Option String) : (h.process reg w message).1.selected = h.selected := by
  unfold process
  split <;> simp_all

@[simp] theorem converse_nil (c : Config ω π σ) (h : Handler π σ) : converse c h [] = h := rfl

@[simp] theorem converse_snoc (c : Config ω π σ) (h : Handler π σ)
    (inputs : List (ω × Option String)) (w : ω) (message : Option String) :
    converse c h (inputs ++ [(w, message)]) =
      ((converse c h inputs).process c.registeredMechanisms w message).1 := by
  simp [converse]

@[simp] theorem converse_selected (c : Config ω π σ) (h : Handler π σ)
    (inputs : List (ω × Option String)) : (converse c h inputs).selected = h.selected := by
  induction inputs generalizing h with
  | nil => rfl
  | cons i inputs ih =>
    have := ih (h.process c.registeredMechanisms i.1 i.2).1
    simpa [converse] using this

@[simp] theorem Handler.process_cleanClone (reg : Mechanisms ω π σ) (h : Handler π σ) (w : ω)
    (message : Option String) : (h.process reg w message).1.cleanClone = h.cleanClone := by
  unfold process
  split <;> rfl

@[simp] theorem converse_cleanClone (c : Config ω π σ) (h : Handler π σ)
    (inputs : List (ω × Option String)) : (converse c h inputs).cleanClone = h.cleanClone := by
  induction inputs generalizing h with
  | nil => rfl
  | cons i inputs ih =>
    have := ih (h.process c.registeredMechanisms i.1 i.2).1
    simpa [converse] using this

variable {c : Config ω π σ} {h : Handler π σ}

theorem Provided.selected (hp : Provided c h) : h.selected = none := by
  obtain ⟨w, cb, rfl⟩ := hp
  rfl

theorem Provided.cleanClone (hp : Provided c h) : h.cleanClone = h := by
  obtain ⟨w, cb, rfl⟩ := hp
  rfl

theorem provided_getSaslHandler (c : Config ω π σ) (w : ω) : Provided c (c.getSaslHandler w) :=
  ⟨w, (c.provider w).2.cb, rfl⟩

theorem Handler.select_eq_some {h' : Handler π σ} {mechanism : Option String}
    (hs : h.select mechanism = some h') :
    ∃ name, mechanism = some name ∧ h' = { h with selected := some name } := by
  unfold select at hs
  split at hs
  · simp at hs
  · rename_i name
    split at hs
    · exact ⟨name, rfl, (Option.some_inj.mp hs).symm⟩
    · simp at hs

/-- Nothing has been selected, so that there is nothing to respond to. -/
def Session.Closed (s : Session π σ) : Prop :=
  ∀ h, s.saslHandler = some h → h.selected = none

/-! ## Processing an element -/

namespace Session

variable (c : Config ω π σ) (s : Session π σ) (h : Handler π σ) (text : Option String) (w : ω)

theorem handleStatus_sent (o : Outcome) : (s.handleStatus c h o).1.sent = s.sent := by
  unfold handleStatus
  split
  · rfl
  · split
    · rename_i t ht
      unfold makeAuthenticated at ht
      split at ht
      · simp at ht
      · rw [← Option.some_inj.mp ht]
    · rfl
  · rfl
  · rfl

theorem buildReply_name (o : Outcome) : (c.buildReply o).name = o.status := by
  cases o with
  | mk status ret errMsg => cases status <;> rfl

theorem handleStatus_closed (o : Outcome)
    (hname : (c.buildReply (s.handleStatus c h o).2).name = .failure) :
    (s.handleStatus c h o).1.Closed := by
  rw [buildReply_name] at hname
  intro h' hh
  unfold handleStatus at hname hh
  split at hh
  · rw [← Option.some_inj.mp hh]
    rfl
  · split at hh
    · simp at hh
    · rw [← Option.some_inj.mp hh]
      rfl
  · rename_i hstatus
    simp [hstatus] at hname
  · rename_i hstatus
    simp [hstatus] at hname

theorem processCdata_sent :
    ∃ r, (s.processCdata c h text w).sent = s.sent ++ [Sent.reply r] ∧
      (r.name = .failure → (s.processCdata c h text w).Closed) := by
  unfold processCdata
  split
  · exact ⟨_, rfl, fun _ h hh => by simp [refuse, send] at hh⟩
  · refine ⟨_, by simp only [send, handleStatus_sent]; rfl, ?_⟩
    intro hname h' hh
    exact handleStatus_closed c s _ _ hname h' hh

theorem processCdata_handler {h' : Handler π σ}
    (hh : (s.processCdata c h text w).saslHandler = some h') :
    h' = h.cleanClone ∨ ∃ message, c.decode text = some message ∧
      h' = (h.process c.registeredMechanisms w message).1 := by
  unfold processCdata at hh
  split at hh
  · simp [refuse, send] at hh
  · rename_i message hdecode
    simp only [send, handleStatus] at hh
    split at hh
    · left
      rw [← Option.some_inj.mp hh, Handler.process_cleanClone]
    · split at hh
      · simp at hh
      · left
        rw [← Option.some_inj.mp hh, Handler.process_cleanClone]
    · exact .inr ⟨message, hdecode, (Option.some_inj.mp hh).symm⟩
    · exact .inr ⟨message, hdecode, (Option.some_inj.mp hh).symm⟩

/-- A user name comes from the handler, after the mechanism has reported success. -/
theorem processCdata_username {u : String} (hold : s.username ≠ some u)
    (hnew : (s.processCdata c h text w).username = some u) :
    ∃ message, c.decode text = some message ∧
      (h.process c.registeredMechanisms w message).2.status = .success ∧
      nonempty ((h.process c.registeredMechanisms w message).1.exchange.username.bind c.nodeprep) =
        some u := by
  unfold processCdata at hnew
  split at hnew
  · exact absurd hnew hold
  · rename_i message hdecode
    refine ⟨message, hdecode, ?_⟩
    simp only [send, handleStatus] at hnew
    split at hnew
    · exact absurd hnew hold
    · rename_i hstatus
      refine ⟨hstatus, ?_⟩
      unfold makeAuthenticated at hnew
      split at hnew
      · rename_i t ht
        split at ht
        · simp at ht
        · rename_i u' hu'
          rw [← Option.some_inj.mp ht] at hnew
          exact hu'.trans hnew
      · exact absurd hnew hold
    · exact absurd hnew hold
    · exact absurd hnew hold

/-! ## The hooks -/

/-- An `auth` on an unauthenticated session is refused, or begins an exchange with an allowed
mechanism. -/
theorem auth_cases (mechanism : Option String) (htype : s.type = .c2sUnauthed) :
    (∃ condition, s.auth c mechanism text w =
      ({ s with saslHandler := some (s.freshHandler c w) } : Session π σ).refuse condition none) ∨
    ∃ name, mechanism = some name ∧ Allowed c s name ∧
      s.auth c mechanism text w =
        ({ s with saslHandler := some (s.freshHandler c w) } : Session π σ).processCdata c
          { s.freshHandler c w with selected := some name } text w := by
  simp only [auth, htype, ne_eq, not_true_eq_false, if_false]
  split
  · exact .inl ⟨_, rfl⟩
  · rename_i hforbids
    split
    · exact .inl ⟨_, rfl⟩
    · rename_i hdisables
      split
      · exact .inl ⟨_, rfl⟩
      · rename_i h' hselect
        obtain ⟨name, rfl, rfl⟩ := Handler.select_eq_some hselect
        exact .inr ⟨name, rfl, ⟨eq_false_of_ne_true hforbids, eq_false_of_ne_true hdisables⟩, rfl⟩

/-- A `response` is refused, or goes to the handler of an exchange. -/
theorem response_cases :
    s.Closed ∧ s.response c text w =
      s.refuse "not-authorized" (some "Out of order SASL element") ∨
    ∃ h mechanism, s.saslHandler = some h ∧ h.selected = some mechanism ∧
      s.response c text w = s.processCdata c h text w := by
  unfold response
  split
  · rename_i hnone
    exact .inl ⟨fun h hh => by simp [hnone] at hh, rfl⟩
  · rename_i h hh
    cases hsel : h.selected with
    | none =>
      refine .inl ⟨fun h' hh' => ?_, by simp⟩
      rw [← Option.some_inj.mp (hh.symm.trans hh')]
      exact hsel
    | some mechanism => exact .inr ⟨h, mechanism, hh, hsel, by simp⟩

/-! ## Refusal -/

/-- An `auth` gives up what was selected before. -/
theorem freshHandler_selected : (s.freshHandler c w).selected = none := by
  unfold freshHandler
  split
  · split
    · rfl
    · rename_i h _ hsel
      simpa using hsel
  · rfl

theorem closed_of_handler {h : Handler π σ} (hsel : h.selected = none) :
    ({ s with saslHandler := some h } : Session π σ).Closed := by
  intro h' hh
  rw [← Option.some_inj.mp hh]
  exact hsel

theorem closed_none : ({ s with saslHandler := none } : Session π σ).Closed := by
  intro h hh
  simp at hh

theorem features_closed (hs : s.Closed) : (s.features c w).Closed := by
  unfold features
  split
  · exact hs
  · split
    · exact hs
    · refine closed_of_handler s ?_
      split <;> rfl

theorem response_closed (hs : s.Closed) :
    s.response c text w = s.refuse "not-authorized" (some "Out of order SASL element") := by
  rcases response_cases c s text w with ⟨-, h⟩ | ⟨h, mechanism, hh, hsel, -⟩
  · exact h
  · simp [hs h hh] at hsel

variable {c s}

/-- Nothing but an `auth` makes a session open for responses. -/
theorem Closed.step (hs : s.Closed) {e : Event ω}
    (he : ∀ mechanism text w, e ≠ .auth mechanism text w) : (s.step c e).Closed := by
  unfold Session.step
  split
  · exact hs
  · cases e with
    | auth mechanism text w => exact absurd rfl (he mechanism text w)
    | response text w =>
      simp only [response_closed c s text w hs]
      exact hs
    | abort => exact s.closed_none
    | starttls canDoTls =>
      simp only [starttls]
      split
      · exact hs
      · exact closed_none { s with type := .c2sDestroyed }
    | streamOpened w =>
      simp only [streamOpened]
      split
      · exact features_closed c _ w hs
      · exact features_closed c s w hs
    | closed => exact closed_none { s with type := .c2sDestroyed }

theorem Closed.run (hs : s.Closed) {es : List (Event ω)}
    (he : ∀ e ∈ es, ∀ mechanism text w, e ≠ .auth mechanism text w) :
    (run (Session.step c) s es).Closed := by
  induction es generalizing s with
  | nil => exact hs
  | cons e es ih =>
    exact ih (hs.step (he e List.mem_cons_self)) fun e' he' => he e' (List.mem_cons_of_mem e he')

/-- Stream features are not a reply. -/
theorem features_sent (w : ω) (r : Reply) : (s.features c w).sent ≠ s.sent ++ [Sent.reply r] := by
  unfold features
  split
  · simp [send]
  · split
    · simp
    · simp [send]

/-- Whatever is answered with a failure closes the exchange. -/
theorem fails_closed {e : Event ω} (hfail : Fails c s e) : (s.step c e).Closed := by
  obtain ⟨r, hsent, hname⟩ := hfail
  have hprocess : ∀ (t : Session π σ) h text w, t.sent = s.sent →
      s.step c e = t.processCdata c h text w → (s.step c e).Closed := by
    intro t h text w ht hstep
    obtain ⟨r', hsent', hclosed⟩ := processCdata_sent c t h text w
    rw [hstep] at hsent ⊢
    rw [hsent, ht] at hsent'
    have hr : r = r' := by simpa using hsent'
    exact hclosed (hr ▸ hname)
  by_cases hdead : s.type = .c2sDestroyed
  · simp [Session.step, hdead] at hsent
  · cases e with
    | auth mechanism text w =>
      by_cases htype : s.type = .c2sUnauthed
      · have hfresh := closed_of_handler s (freshHandler_selected c s w)
        rcases auth_cases c s text w mechanism htype with ⟨condition, h⟩ | ⟨name, -, -, h⟩
        · simp only [Session.step, hdead, if_false, h]
          exact hfresh
        · exact hprocess { s with saslHandler := some (s.freshHandler c w) }
            { s.freshHandler c w with selected := some name } text w rfl
            (by simp [Session.step, hdead, h])
      · simp [Session.step, hdead, auth, htype, close] at hsent
    | response text w =>
      rcases response_cases c s text w with ⟨hclosed, h⟩ | ⟨h', mechanism, -, -, h⟩
      · simp only [Session.step, hdead, if_false, h]
        exact hclosed
      · exact hprocess s h' text w rfl (by simp [Session.step, hdead, h])
    | abort =>
      simp only [Session.step, hdead, if_false]
      exact s.closed_none
    | starttls canDoTls =>
      simp only [Session.step, hdead, if_false, starttls] at hsent ⊢
      split at hsent
      · simp at hsent
      · simp [close] at hsent
    | streamOpened w =>
      simp only [Session.step, hdead, if_false, streamOpened] at hsent
      split at hsent
      · exact absurd hsent (features_sent (s := { s with secure := some true, encrypted := true })
          w r)
      · exact absurd hsent (features_sent w r)
    | closed => simp [Session.step, hdead, close] at hsent

end Session

/-! ## What handlers hold -/

variable {past : List (Event ω)} {inputs : List (ω × Option String)} {start : Session π σ}

variable {mechanism : String}

theorem Begun.snoc (hb : Begun c start past mechanism h inputs) {e : Event ω} (he : ¬e.Interrupts) :
    Begun c start (past ++ [e]) mechanism h (inputs ++ (e.input c).toList) := by
  obtain ⟨hnew, before, text, w, rest, rfl, hallowed, hrest, rfl⟩ := hb
  refine ⟨hnew, before, text, w, rest ++ [e], by simp, hallowed, ?_, ?_⟩
  · intro e' he'
    rcases List.mem_append.mp he' with he' | he'
    · exact hrest e' he'
    · exact List.mem_singleton.mp he' ▸ he
  · rw [← List.cons_append, List.filterMap_append]
    rfl

theorem Begun.selected
    (hb : Begun c start past mechanism h inputs) : h.selected = some mechanism := by
  obtain ⟨⟨h', -, rfl⟩, -⟩ := hb
  rfl

theorem Begun.provided (hb : Begun c start past mechanism h inputs) : Provided c h.cleanClone := by
  obtain ⟨⟨h', hp, rfl⟩, -⟩ := hb
  have hclone : ({ h' with selected := some mechanism } : Handler π σ).cleanClone = h' :=
    hp.cleanClone
  exact hclone ▸ hp

/-- The handler is new, or holds the result of the exchange in which the run ends. -/
structure Tracked (c : Config ω π σ) (start : Session π σ) (past : List (Event ω))
    (s : Session π σ) : Prop where
  reached : s = run (Session.step c) start past
  handler : s.type ≠ .c2sDestroyed → ∀ h, s.saslHandler = some h → Provided c h ∨
    ∃ mechanism h₀ inputs, Begun c start past mechanism h₀ inputs ∧ h = converse c h₀ inputs

section

variable {c : Config ω π σ} {start s : Session π σ} {past : List (Event ω)}

variable {h : Handler π σ}

variable {mechanism : String}

theorem Tracked.exchange (ht : Tracked c start past s) (hlive : s.type ≠ .c2sDestroyed)
    (hh : s.saslHandler = some h) (hsel : h.selected = some mechanism) :
    ∃ h₀ inputs, Begun c start past mechanism h₀ inputs ∧ h = converse c h₀ inputs := by
  rcases ht.handler hlive h hh with hp | ⟨mechanism', h₀, inputs, hbegun, rfl⟩
  · simp [hp.selected] at hsel
  · rw [converse_selected, hbegun.selected] at hsel
    obtain rfl := Option.some_inj.mp hsel
    exact ⟨h₀, inputs, hbegun, rfl⟩

theorem Tracked.unselected (ht : Tracked c start past s) (hlive : s.type ≠ .c2sDestroyed)
    (hh : s.saslHandler = some h) (hsel : h.selected = none) : Provided c h := by
  rcases ht.handler hlive h hh with hp | ⟨mechanism, h₀, inputs, hbegun, rfl⟩
  · exact hp
  · simp [hbegun.selected] at hsel

/-- An `auth` starts with a new handler. -/
theorem Tracked.freshHandler (ht : Tracked c start past s) (hlive : s.type ≠ .c2sDestroyed)
    (w : ω) : Provided c (s.freshHandler c w) := by
  unfold Session.freshHandler
  split
  · rename_i h hh
    cases hsel : h.selected with
    | none => simpa using ht.unselected hlive hh hsel
    | some mechanism => simpa using provided_getSaslHandler c w
  · exact provided_getSaslHandler c w

/-- The exchange that an allowed `auth` begins. -/
theorem Tracked.begun (ht : Tracked c start past s) (hlive : s.type ≠ .c2sDestroyed)
    {text : Option String} {w : ω} {message : Option String} (hallowed : Allowed c s mechanism)
    (hdecode : c.decode text = some message) :
    Begun c start (past ++ [Event.auth (some mechanism) text w]) mechanism
      { s.freshHandler c w with selected := some mechanism } [(w, message)] := by
  refine ⟨⟨_, ht.freshHandler hlive w, rfl⟩, past, text, w, [], rfl, ht.reached ▸ hallowed,
    by simp, ?_⟩
  simp [Event.input, hdecode]

variable {e : Event ω}

theorem Tracked.processed {t : Session π σ} {h₀ : Handler π σ}
    {inputs : List (ω × Option String)} {text : Option String} {w : ω}
    (ht : Tracked c start past s) (hstep : s.step c e = t.processCdata c h text w)
    (hh : h = converse c h₀ inputs) (hprovided : Provided c h₀.cleanClone)
    (hbegun : ∀ message, c.decode text = some message →
      Begun c start (past ++ [e]) mechanism h₀ (inputs ++ [(w, message)])) :
    Tracked c start (past ++ [e]) (s.step c e) where
  reached := by
    rw [run_append, ← ht.reached]
    rfl
  handler _ h' hh' := by
    rw [hstep] at hh'
    rcases Session.processCdata_handler c t h text w hh' with rfl | ⟨message, hdecode, rfl⟩
    · rw [hh, converse_cleanClone]
      exact .inl hprovided
    · refine .inr ⟨mechanism, h₀, _, hbegun message hdecode, ?_⟩
      rw [converse_snoc, hh]

theorem Tracked.kept (ht : Tracked c start past s)
    (hlive : s.type ≠ .c2sDestroyed) (he : ¬e.Interrupts) (hinput : e.input c = none)
    (hh : ∀ h, (s.step c e).saslHandler = some h → s.saslHandler = some h ∨ Provided c h) :
    Tracked c start (past ++ [e]) (s.step c e) where
  reached := by
    rw [run_append, ← ht.reached]
    rfl
  handler _ h hh' := by
    rcases hh h hh' with hold | hnew
    · rcases ht.handler hlive h hold with hnew | ⟨mechanism, h₀, inputs, hbegun, rfl⟩
      · exact .inl hnew
      · have hnext := hbegun.snoc he
        rw [hinput] at hnext
        exact .inr ⟨mechanism, h₀, inputs, by simpa using hnext, rfl⟩
    · exact .inl hnew

theorem Tracked.renewed (ht : Tracked c start past s)
    (hh : ∀ h, (s.step c e).saslHandler = some h → Provided c h) :
    Tracked c start (past ++ [e]) (s.step c e) where
  reached := by
    rw [run_append, ← ht.reached]
    rfl
  handler _ h hh' := .inl (hh h hh')

theorem features_handler {s : Session π σ} {w : ω} (hh : (s.features c w).saslHandler = some h) :
    s.saslHandler = some h ∨ Provided c h := by
  unfold Session.features at hh
  split at hh
  · exact .inl hh
  · split at hh
    · exact .inl hh
    · right
      rw [← Option.some_inj.mp hh]
      split
      · exact ⟨w, _, rfl⟩
      · exact provided_getSaslHandler c w

theorem Tracked.step (ht : Tracked c start past s) (e : Event ω) :
    Tracked c start (past ++ [e]) (s.step c e) := by
  by_cases hdead : s.type = .c2sDestroyed
  · have hstep : s.step c e = s := by simp [Session.step, hdead]
    refine ⟨?_, fun hlive => absurd (by rw [hstep]; exact hdead) hlive⟩
    rw [run_append, ← ht.reached]
    rfl
  · cases e with
    | auth mechanism text w =>
      by_cases htype : s.type = .c2sUnauthed
      · rcases Session.auth_cases c s text w mechanism htype with
          ⟨condition, h⟩ | ⟨name, rfl, hallowed, h⟩
        · refine ht.renewed fun h' hh => ?_
          simp only [Session.step, hdead, if_false, h] at hh
          rw [← Option.some_inj.mp hh]
          exact ht.freshHandler hdead w
        · have hbegun : ∀ message, c.decode text = some message →
              Begun c start (past ++ [Event.auth (some name) text w]) name
                { s.freshHandler c w with selected := some name } ([] ++ [(w, message)]) :=
            fun message hdecode => ht.begun hdead hallowed hdecode
          exact ht.processed (t := { s with saslHandler := some (s.freshHandler c w) })
            (by simp [Session.step, hdead, h]) rfl
            ((ht.freshHandler hdead w).cleanClone.symm ▸ ht.freshHandler hdead w) hbegun
      · refine ht.renewed fun h' hh => ?_
        simp [Session.step, hdead, Session.auth, htype, Session.close] at hh
    | response text w =>
      rcases Session.response_cases c s text w with ⟨hclosed, h⟩ | ⟨h', mechanism, hh, hsel, h⟩
      · refine ht.renewed fun h' hh => ?_
        simp only [Session.step, hdead, if_false, h] at hh
        exact ht.unselected hdead hh (hclosed h' hh)
      · obtain ⟨h₀, inputs, hbegun, hconv⟩ := ht.exchange hdead hh hsel
        have hstep : s.step c (.response text w) = s.processCdata c h' text w := by
          simp [Session.step, hdead, h]
        have hnext : ∀ message, c.decode text = some message →
            Begun c start (past ++ [Event.response text w]) mechanism h₀
              (inputs ++ [(w, message)]) := by
          intro message hdecode
          simpa [Event.input, hdecode] using hbegun.snoc (e := .response text w) id
        exact ht.processed hstep hconv hbegun.provided hnext
    | abort =>
      refine ht.renewed fun h' hh => ?_
      simp [Session.step, hdead, Session.abort, Session.refuse, Session.send] at hh
    | starttls canDoTls =>
      refine ht.kept hdead id rfl fun h hh => ?_
      simp only [Session.step, hdead, if_false, Session.starttls] at hh
      split at hh
      · exact .inl hh
      · simp [Session.close] at hh
    | streamOpened w =>
      refine ht.kept hdead id rfl fun h hh => ?_
      simp only [Session.step, hdead, if_false, Session.streamOpened] at hh
      split at hh
      · have hfeatures := features_handler hh
        exact hfeatures
      · exact features_handler hh
    | closed =>
      refine ht.renewed fun h' hh => ?_
      simp [Session.step, hdead, Session.close] at hh

theorem features_username (s : Session π σ) (w : ω) :
    (s.features c w).username = s.username := by
  unfold Session.features
  split
  · rfl
  · split <;> rfl

/-- A name is accepted when the last content of an exchange has made the mechanism report
success. -/
theorem Tracked.authenticates (ht : Tracked c start past s) {u : String}
    (hold : s.username ≠ some u) (hnew : (s.step c e).username = some u) :
    ∃ mechanism h inputs w message,
      Begun c start (past ++ [e]) mechanism h (inputs ++ [(w, message)]) ∧
      ((converse c h inputs).process c.registeredMechanisms w message).2.status = .success ∧
      nonempty (((converse c h inputs).process c.registeredMechanisms w
        message).1.exchange.username.bind c.nodeprep) = some u := by
  have hsame : (s.step c e).username ≠ s.username := fun h => hold (h ▸ hnew)
  by_cases hdead : s.type = .c2sDestroyed
  · exact absurd (by simp [Session.step, hdead]) hsame
  · cases e with
    | auth mechanism text w =>
      by_cases htype : s.type = .c2sUnauthed
      · rcases Session.auth_cases c s text w mechanism htype with
          ⟨condition, h⟩ | ⟨name, rfl, hallowed, h⟩
        · refine absurd ?_ hsame
          simp only [Session.step, hdead, if_false, h]
          rfl
        · simp only [Session.step, hdead, if_false, h] at hnew
          obtain ⟨message, hdecode, hstatus, hname⟩ :=
            Session.processCdata_username c
              { s with saslHandler := some (s.freshHandler c w) } _ text w hold hnew
          exact ⟨name, _, [], w, message, ht.begun hdead hallowed hdecode, hstatus, hname⟩
      · refine absurd ?_ hsame
        simp [Session.step, hdead, Session.auth, htype, Session.close]
    | response text w =>
      rcases Session.response_cases c s text w with ⟨-, h⟩ | ⟨h', mechanism, hh, hsel, h⟩
      · refine absurd ?_ hsame
        simp only [Session.step, hdead, if_false, h]
        rfl
      · simp only [Session.step, hdead, if_false, h] at hnew
        obtain ⟨message, hdecode, hstatus, hname⟩ :=
          Session.processCdata_username c _ _ text w hold hnew
        obtain ⟨h₀, inputs, hbegun, rfl⟩ := ht.exchange hdead hh hsel
        refine ⟨mechanism, h₀, inputs, w, message, ?_, hstatus, hname⟩
        simpa [Event.input, hdecode] using hbegun.snoc (e := .response text w) id
    | abort => exact absurd (by simp only [Session.step, hdead, if_false]; rfl) hsame
    | starttls canDoTls =>
      refine absurd ?_ hsame
      simp only [Session.step, hdead, if_false, Session.starttls]
      split <;> rfl
    | streamOpened w =>
      refine absurd ?_ hsame
      simp only [Session.step, hdead, if_false, Session.streamOpened]
      split <;> exact features_username _ w
    | closed => exact absurd (by simp only [Session.step, hdead, if_false]; rfl) hsame

end

/-- Authentication is the success of an exchange that an allowed `auth` began, and failures
put an end to exchanges. The user is the prepared name that the handler has then. -/
theorem exchanges_authenticate (c : Config ω π σ) (secure : Option Bool) (encrypted : Bool)
    (es : List (Event ω)) :
    Authenticates c (fun username => nonempty (username.bind c.nodeprep))
      { secure := secure, encrypted := encrypted } es ∧
    Refuses c { secure := secure, encrypted := encrypted } es := by
  constructor
  · intro past e hpre u hold hnew
    have hstart : Tracked c { secure := secure, encrypted := encrypted } []
        ({ secure := secure, encrypted := encrypted } : Session π σ) :=
      ⟨rfl, fun _ h hh => by simp at hh⟩
    have htracked := history_invariant (fun _ _ e ht => ht.step e) hstart past
    rw [run_append] at hnew
    exact htracked.authenticates hold hnew
  · intro past e rest hpre hfail hrest text w s hlive
    have hclosed : s.Closed := by
      have := (Session.fails_closed hfail).run (c := c) hrest
      simpa [s, run_append] using this
    simp only [Session.step, hlive, if_false]
    exact Session.response_closed c s text w hclosed

/-! ## A name that preparation changes -/

/-- Lower case, which is what preparation makes of these names. -/
def lower (s : String) : Option String := some (.ofList (s.toList.map Char.toLower))

/-- A server whose users are known by their certificates. -/
def verona : Config Unit (Backend Unit) Unit where
  registeredMechanisms := registered some lower
  provider _ :=
    ("verona.example",
      { backend := { external := fun _ user => (user, .enabled) }, mechanisms := ["EXTERNAL"] })
  nodeprep := lower
  base64Decode text := if text = "Um9tZW8=" then some "Romeo" else none
  base64Encode _ := ""

/-- `EXTERNAL` for the user `Romeo`. -/
def romeoAuth : Event Unit := .auth (some "EXTERNAL") (some "Um9tZW8=") ()

/-- The user is not the name that the handler has, but what is made of it. -/
theorem preparation_changes_user :
    ¬∀ es, Authenticates verona id { secure := some true } es ∧
      Refuses verona { secure := some true } es := by
  intro h
  obtain ⟨mechanism, h₀, inputs, w, message, hbegun, -, hname⟩ :=
    (h [romeoAuth]).1 [] romeoAuth List.prefix_rfl "romeo" (by decide) (by decide +kernel)
  obtain ⟨⟨h', ⟨w', cb, rfl⟩, rfl⟩, before, text, w'', rest, hrun, -, -, hinputs⟩ := hbegun
  -- the run is the `auth` alone, so that the exchange has a single content
  have hlen : before.length = 0 ∧ rest.length = 0 := by
    have := congrArg List.length hrun
    simp only [List.nil_append, List.length_append, List.length_cons, List.length_nil] at this
    omega
  obtain rfl := List.length_eq_zero_iff.mp hlen.1
  obtain rfl := List.length_eq_zero_iff.mp hlen.2
  obtain ⟨hm, rfl, -⟩ := Event.auth.inj (List.cons.inj hrun).1
  obtain rfl := Option.some_inj.mp hm
  have hsingle : inputs ++ [(w, message)] = [] ++ [((), some "Romeo")] := hinputs
  obtain ⟨rfl, hlast⟩ := List.append_inj' hsingle rfl
  obtain ⟨-, rfl⟩ := Prod.mk.inj (List.cons.inj hlast).1
  have hsame : some "Romeo" = some "romeo" := hname
  exact absurd hsame (by decide)

end Prosody.Sasl
