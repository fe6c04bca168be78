import Prosody.Core.StanzaRouter

/-! # Authentic senders

A stanza is handed on only under an address that its stream may speak for. -/

namespace Prosody.StanzaRouter

variable {rt : Router} {origin : Origin} {stanza posted : Stanza}

/-! ## Stanzas that are handed on -/

/-- The streams whose stanzas may be handed on. -/
def Routable (type : OriginType) : Prop := type = .s2sin ∨ type = .c2s ∨ type = .component

theorem handleUnhandledStanza_ne_post (pre : Bool) :
    handleUnhandledStanza origin stanza ≠ .post posted pre := by
  unfold handleUnhandledStanza
  split
  · split
    · exact Outcome.noConfusion
    · split <;> exact Outcome.noConfusion
  · exact Outcome.noConfusion

theorem streamLevel_ne_post (pre : Bool) : streamLevel rt origin stanza ≠ .post posted pre := by
  unfold streamLevel
  split
  · exact handleUnhandledStanza_ne_post pre
  · split
    · exact Outcome.noConfusion
    · exact handleUnhandledStanza_ne_post pre

theorem jidMalformed_ne_post (pre : Bool) : jidMalformed stanza ≠ .post posted pre := by
  unfold jidMalformed
  split <;> exact Outcome.noConfusion

variable {pre : Bool} {toHost : Option String}

theorem dispatch_post {fromHost : Option String}
    (h : dispatch rt origin stanza fromHost toHost = .post posted pre) :
    posted = stanza ∧ Routable origin.type ∧ stanza.xmlns = none ∧
      (origin.type = .s2sin → origin.dummy = false →
        (∃ host, fromHost = some host ∧ (origin.hosts.get host).any HostStatus.authed = true) ∧
          ∃ host, toHost = some host ∧ host ∈ rt.hosts) := by
  unfold dispatch at h
  split at h
  · rename_i hroutable
    split at h
    · split at h
      · cases h
      · split at h
        · cases h
        · rename_i hauthed hlocal
          cases h
          refine ⟨rfl, hroutable.1, hroutable.2, fun _ _ => ⟨?_, ?_⟩⟩
          · cases fromHost with
            | none => simp at hauthed
            | some host => exact ⟨host, rfl, by simpa using hauthed⟩
          · cases toHost with
            | none => simp at hlocal
            | some host => exact ⟨host, rfl, by simpa using hlocal⟩
    · rename_i hpeer
      cases h
      refine ⟨rfl, hroutable.1, hroutable.2, fun htype hdummy => ?_⟩
      exact absurd ⟨htype, by simp [hdummy]⟩ hpeer
  · exact absurd h (streamLevel_ne_post pre)

/-- What is known of a stanza that has been handed on. -/
structure Checked (rt : Router) (origin : Origin) (stanza posted : Stanza) : Prop where
  routable : Routable origin.type
  xmlns : stanza.xmlns = none
  stamped : origin.fullJid ≠ none ∨ stanza.sender = none → posted.sender = stanza.sender
  prepped : ∀ sender, stanza.sender = some sender → origin.fullJid = none →
    ∃ parts, Jid.preppedSplit rt.enc sender = some parts ∧ posted.sender = some parts.join
  remote : origin.type = .s2sin → origin.dummy = false → origin.fullJid = none →
    (∃ sender parts, stanza.sender = some sender ∧ Jid.preppedSplit rt.enc sender = some parts ∧
      (origin.hosts.get parts.host).any HostStatus.authed = true) ∧
    ∃ recipient dest host, stanza.recipient = some recipient ∧
      rt.destination recipient = some dest ∧ dest.host = some host ∧ host ∈ rt.hosts

theorem processFrom_post (h : processFrom rt origin stanza toHost = .post posted pre) :
    Routable origin.type ∧ stanza.xmlns = none ∧
      (origin.fullJid ≠ none ∨ stanza.sender = none → posted.sender = stanza.sender) ∧
      (∀ sender, stanza.sender = some sender → origin.fullJid = none →
        ∃ parts, Jid.preppedSplit rt.enc sender = some parts ∧ posted.sender = some parts.join) ∧
      (origin.type = .s2sin → origin.dummy = false → origin.fullJid = none →
        (∃ sender parts, stanza.sender = some sender ∧ Jid.preppedSplit rt.enc sender = some parts ∧
          (origin.hosts.get parts.host).any HostStatus.authed = true) ∧
        ∃ host, toHost = some host ∧ host ∈ rt.hosts) := by
  unfold processFrom at h
  cases hs : stanza.sender with
  | none =>
    rw [hs] at h
    obtain ⟨rfl, hr, hx, hremote⟩ := dispatch_post h
    refine ⟨hr, hx, fun _ => hs, by simp, ?_⟩
    intro htype hdummy _
    obtain ⟨⟨host, hhost, -⟩, -⟩ := hremote htype hdummy
    cases hhost
  | some sender =>
    rw [hs] at h
    dsimp only at h
    by_cases hjid : origin.fullJid = none
    · rw [if_pos hjid] at h
      cases hp : Jid.preppedSplit rt.enc sender with
      | none =>
        rw [hp] at h
        exact absurd h (jidMalformed_ne_post pre)
      | some parts =>
        rw [hp] at h
        obtain ⟨rfl, hr, hx, hremote⟩ := dispatch_post h
        refine ⟨hr, hx, by simp [hjid], ?_, ?_⟩
        · rintro _ ⟨⟩ _
          exact ⟨parts, hp, rfl⟩
        · intro htype hdummy _
          obtain ⟨⟨host, hhost, hauthed⟩, hlocal⟩ := hremote htype hdummy
          cases hhost
          exact ⟨⟨sender, parts, rfl, hp, hauthed⟩, hlocal⟩
    · rw [if_neg hjid] at h
      obtain ⟨rfl, hr, hx, -⟩ := dispatch_post h
      exact ⟨hr, hx, fun _ => hs, fun _ _ hnone => absurd hnone hjid,
        fun _ _ hnone => absurd hnone hjid⟩

theorem processTo_post (h : processTo rt origin stanza = .post posted pre) :
    Checked rt origin stanza posted := by
  unfold processTo at h
  cases hto : stanza.recipient with
  | none =>
    rw [hto] at h
    obtain ⟨hr, hx, hs, hp, hremote⟩ := processFrom_post h
    refine ⟨hr, hx, hs, hp, ?_⟩
    intro htype hdummy hjid
    obtain ⟨-, host, hhost, -⟩ := hremote htype hdummy hjid
    cases hhost
  | some recipient =>
    rw [hto] at h
    dsimp only at h
    cases hd : rt.destination recipient with
    | none =>
      rw [hd] at h
      exact absurd h (jidMalformed_ne_post pre)
    | some dest =>
      rw [hd] at h
      obtain ⟨hr, hx, hs, hp, hremote⟩ := processFrom_post h
      refine ⟨hr, hx, hs, hp, ?_⟩
      intro htype hdummy hjid
      obtain ⟨hfrom, host, hhost, hlocal⟩ := hremote htype hdummy hjid
      exact ⟨hfrom, recipient, dest, host, hto, hd, hhost, hlocal⟩

variable {outcome : Outcome}

theorem checkClientStanza_ne_post
    (h : checkClientStanza origin stanza = some outcome) (pre : Bool) :
    outcome ≠ .post posted pre := by
  unfold checkClientStanza at h
  split at h
  · cases h
    exact handleUnhandledStanza_ne_post pre
  · split at h
    · split at h
      · cases h
        exact Outcome.noConfusion
      · split at h
        · cases h
          exact Outcome.noConfusion
        · split at h
          · cases h
            exact Outcome.noConfusion
          · cases h
    · cases h

/-- Whatever address a client has written, it is replaced. -/
theorem coreProcessStanza_post (h : coreProcessStanza rt origin stanza = .post posted pre) :
    Checked rt origin
      (if origin.type = .c2s ∧ stanza.xmlns = none then { stanza with sender := origin.fullJid }
        else stanza) posted := by
  unfold coreProcessStanza at h
  split at h
  · rename_i hclient
    rw [if_pos hclient]
    split at h
    · rename_i outcome hcheck
      exact absurd h (checkClientStanza_ne_post hcheck pre)
    · exact processTo_post h
  · rename_i hclient
    rw [if_neg hclient]
    exact processTo_post h

/-! ## Known addresses -/

/-- The address is its own prepared form, and a host is a domain and nothing else. -/
def Router.Canonical (rt : Router) (jid : String) : Prop :=
  ∃ parts, Jid.split jid = some parts ∧ Jid.preppedSplit rt.enc jid = some parts ∧
    (jid ∈ rt.hosts → parts = ⟨none, jid, none⟩)

/-- For canonical addresses the shortcut is the general path. -/
theorem Router.Canonical.destination {jid : String} (h : rt.Canonical jid)
    (hk : rt.knows jid = true) : rt.destination jid = preppedDestination rt.enc jid := by
  obtain ⟨parts, hs, hp, -⟩ := h
  rw [Router.destination, if_pos hk, knownDestination, hs, preppedDestination, hp,
    Option.map_some, Jid.join_split hs]

theorem Router.destination_eq {jid : String} (h : rt.knows jid = true → rt.Canonical jid) :
    rt.destination jid = preppedDestination rt.enc jid := by
  by_cases hk : rt.knows jid = true
  · exact (h hk).destination hk
  · rw [Router.destination, if_neg hk]

theorem Router.Canonical.split {host : String} (h : rt.Canonical host) (hh : host ∈ rt.hosts) :
    Jid.split host = some ⟨none, host, none⟩ := by
  obtain ⟨parts, hs, -, hparts⟩ := h
  rw [hs, hparts hh]

/-- Preparing an address leaves the domain of a canonical host alone. -/
theorem Router.Canonical.host_eq {host : String} (h : rt.Canonical host) (hh : host ∈ rt.hosts)
    {jid : String} {parts prepped : Jid} (hs : Jid.split jid = some parts)
    (hhost : parts.host = host) (hp : Jid.preppedSplit rt.enc jid = some prepped) :
    prepped.host = host := by
  have hself := h.split hh
  obtain ⟨parts', -, hprep, hparts'⟩ := h
  obtain rfl := hparts' hh
  -- both addresses have the same host to prepare
  simp only [Jid.preppedSplit, hs, hself, hhost, Option.bind_eq_bind, Option.bind_some] at hp hprep
  split at hprep
  · simp at hprep
  · rename_i hdot
    rw [if_neg hdot] at hp
    simp only [Option.pure_def, Option.bind_eq_some_iff, Option.some.injEq] at hp hprep
    obtain ⟨h₁, hn₁, -, -, -, -, rfl⟩ := hp
    obtain ⟨h₂, hn₂, _, -, _, -, hparts⟩ := hprep
    have hhost₂ : h₂ = host := (Jid.mk.inj hparts).2.1
    exact (Option.some.inj (hn₁.symm.trans hn₂)).trans hhost₂

/-! ## Components -/

variable {c : Component}

/-- What a component hands to the router carries the component's domain. -/
theorem checkComponentStanza_inr {s : Stanza}
    (h : checkComponentStanza c stanza = .inr s) (hv : c.validateFrom = true)
    (hx : s.xmlns = none) (hc : Jid.split c.host = some ⟨none, c.host, none⟩) :
    ∃ sender parts, s.sender = some sender ∧ Jid.split sender = some parts ∧
      parts.host = c.host := by
  unfold checkComponentStanza at h
  split at h
  · cases hs : stanza.sender with
    | none =>
      rw [hs] at h
      dsimp only at h
      split at h
      · cases h
      · cases h
        exact ⟨c.host, _, rfl, hc, rfl⟩
    | some sender =>
      rw [hs] at h
      dsimp only at h
      split at h
      · cases h
      · rename_i hdomain
        split at h
        · cases h
        · cases h
          simp only [hv, true_and, not_not, Option.map_eq_some_iff] at hdomain
          obtain ⟨parts, hsplit, hhost⟩ := hdomain
          exact ⟨sender, parts, hs, hsplit, hhost⟩
  · rename_i hns
    cases h
    exact absurd (Or.inl hx) hns

theorem checkComponentStanza_inl (h : checkComponentStanza c stanza = .inl outcome) (pre : Bool) :
    outcome ≠ .post posted pre := by
  unfold checkComponentStanza at h
  split at h
  · split at h
    · split at h
      · cases h
        exact Outcome.noConfusion
      · split at h
        · cases h
          exact Outcome.noConfusion
        · cases h
    · split at h
      · cases h
        exact Outcome.noConfusion
      · cases h
  · cases h

/-- The outcomes that end the matter: nothing, an error or the end of the stream. -/
def Refused (outcome : Outcome) : Prop :=
  outcome = .dropped ∨ (∃ type condition, outcome = .reply type condition) ∨
    ∃ reason, outcome = .closed reason

theorem not_client_unbound (h : origin.type ≠ .c2s) : origin.fullJid = none := by
  by_contra hb
  exact h (origin.bound hb)

theorem Router.Canonical.component (h : rt.Canonical c.host)
    (ht : c.origin.type = .component) (hv : c.validateFrom = true) (hc : c.host ∈ rt.hosts)
    (hp : handleComponentStanza rt c stanza = .post posted pre) :
    ∃ parts : Jid, posted.sender = some parts.join ∧ parts.host = c.host := by
  unfold handleComponentStanza at hp
  dsimp only at hp
  split at hp
  · rename_i outcome hcheck
    exact absurd hp (checkComponentStanza_inl hcheck pre)
  · rename_i s hcheck
    have hchecked := coreProcessStanza_post hp
    have hclient : ¬ (c.origin.type = .c2s ∧ s.xmlns = none) := by simp [ht]
    rw [if_neg hclient] at hchecked
    obtain ⟨sender, parts, hs, hsplit, hhost⟩ :=
      checkComponentStanza_inr hcheck hv hchecked.xmlns (h.split hc)
    obtain ⟨prepped, hprep, hposted⟩ :=
      hchecked.prepped sender hs (not_client_unbound (show c.origin.type ≠ .c2s by simp [ht]))
    exact ⟨prepped, hposted, h.host_eq hc hsplit hhost hprep⟩

def plainPreps : Jid.Stringprep := ⟨some, some, some⟩

def verona : Router :=
  { fullSessions := {"juliet@verona/balcony"}
    bareSessions := {"juliet@verona"}
    hosts := {"verona"}
    enc := plainPreps
    handles := fun _ _ _ => false }

end Prosody.StanzaRouter
