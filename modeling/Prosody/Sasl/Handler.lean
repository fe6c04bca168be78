import Mathlib.Data.List.Basic

/-! # SASL handlers

`util/sasl.lua`: the object that carries an exchange from one element to the next, and the
mechanisms `PLAIN`, `ANONYMOUS` and `EXTERNAL`. A mechanism is a function that a table has
under its name. What it gets from elsewhere, such as random numbers and answers of the user
database, is its first argument. -/

namespace Prosody.Sasl

/-- The first result of a mechanism. -/
inductive Status
  | challenge | success | failure
  | other (name : String)
  deriving DecidableEq, Repr

structure Outcome where
  status : Status
  ret : Option String := none
  errMsg : Option String := none
  deriving DecidableEq, Repr

/-- What mechanisms write to the handler. -/
structure Exchange (σ : Type) where
  username : Option String := none
  state : Option σ := none
  deriving DecidableEq, Repr

/-- What an authentication provider gives to the handler: its functions, the mechanisms they
are sufficient for, and the names of channel bindings. -/
structure Profile (π : Type) where
  backend : π
  mechanisms : List String
  cb : List String := []

structure Handler (π σ : Type) where
  realm : String
  profile : Profile π
  mechs : List String
  selected : Option String := none
  exchange : Exchange σ := {}

/-- `registered_mechanisms` -/
abbrev Mechanisms (ω π σ : Type) :=
  String → ω → Handler π σ → Option String → Exchange σ × Outcome

namespace Handler

variable {ω π σ : Type}

def new (realm : String) (profile : Profile π) : Handler π σ :=
  { realm := realm, profile := profile, mechs := profile.mechanisms }

/-- `add_cb_handler` -/
def addCbHandler (h : Handler π σ) (name : String) : Handler π σ :=
  { h with profile := { h.profile with cb := h.profile.cb ++ [name] } }

/-- `clean_clone`: a fresh handler with the same realm and profile. -/
def cleanClone (h : Handler π σ) : Handler π σ := new h.realm h.profile

/-- `mechanisms`: those with channel bindings need one that the profile has. -/
def mechanisms (channelBindings : String → Option (List String)) (h : Handler π σ) :
    List String :=
  h.mechs.filter fun mech =>
    match channelBindings mech with
    | none => true
    | some names => h.profile.cb.any fun name => names.contains name

/-- `select`, on a handler without a selected mechanism only. -/
def select (h : Handler π σ) (mechanism : Option String) : Option (Handler π σ) :=
  match mechanism with
  | none => none
  | some name =>
    if h.selected.isNone && h.mechs.contains name then some { h with selected := some name }
    else none

/-- `process`, for a handler with a selected mechanism. -/
def process (registered : Mechanisms ω π σ) (h : Handler π σ) (w : ω)
    (message : Option String) : Handler π σ × Outcome :=
  match h.selected with
  | none => (h, { status := .failure })
  | some name =>
    let r := registered name w h message
    ({ h with exchange := r.1 }, r.2)

end Handler

/-! ## Mechanisms -/

inductive AccountState
  | enabled | disabled | nonexistent | expired
  deriving DecidableEq, Repr

/-- The functions of a provider for the mechanisms below. `nodeprep` is absent where the
profile says nothing, and `none` where it says `false`. -/
structure Backend (ω : Type) where
  nodeprep : Option (Option (String → Option String)) := none
  plain : Option (ω → String → String → Option String × AccountState) := none
  plainTest : Option (ω → String → String → String → Bool × AccountState) := none
  anonymous : ω → String := fun _ => ""
  external : ω → Option String → Option String × AccountState := fun _ _ => (none, .nonexistent)

section

variable {ω σ : Type}

/-- The pattern `^([^%z]*)%z([^%z]+)%z([^%z]+)`, without the first capture. -/
def plainParts (message : String) : Option (String × String) :=
  let nonzero (c : Char) : Bool := c != '\x00'
  match message.toList.dropWhile nonzero with
  | [] => none
  | _ :: rest =>
    match rest.takeWhile nonzero, rest.dropWhile nonzero with
    | [], _ => none
    | _, [] => none
    | authentication, _ :: password =>
      match password.takeWhile nonzero with
      | [] => none
      | password => some (.ofList authentication, .ofList password)

/-- A string that preparation accepts and does not make empty. -/
def nonempty (s : Option String) : Option String := s.filter (· ≠ "")

/-- `PLAIN`. The user name is set before the password is checked. -/
def plain (saslprep nodeprep : String → Option String) (w : ω) (h : Handler (Backend ω) σ)
    (message : Option String) : Exchange σ × Outcome :=
  let invalid : Exchange σ × Outcome :=
    (h.exchange, ⟨.failure, some "malformed-request", some "Invalid username or password."⟩)
  match message.bind plainParts with
  | none => (h.exchange, ⟨.failure, some "malformed-request", none⟩)
  | some (authentication, password) =>
    match nonempty (saslprep authentication), nonempty (saslprep password) with
    | some authentication, some password =>
      let prepared := match h.profile.backend.nodeprep with
        | some none => some authentication
        | some (some prep) => nonempty (prep authentication)
        | none => nonempty (nodeprep authentication)
      match prepared with
      | none => invalid
      | some username =>
        let (correct, state) := match h.profile.backend.plain, h.profile.backend.plainTest with
          | some lookup, _ =>
            let (correctPassword, state) := lookup w username h.realm
            (correctPassword == some password, state)
          | none, some test => test w username password h.realm
          | none, none => (false, .disabled)
        let exchange := { h.exchange with username := some username }
        if state = .disabled then
          (exchange, ⟨.failure, some "account-disabled", none⟩)
        else if state = .nonexistent || !correct then
          (exchange, ⟨.failure, some "not-authorized",
            some "Unable to authorize you with the authentication credentials you've sent."⟩)
        else (exchange, { status := .success })
    | _, _ => invalid

/-- `ANONYMOUS`, with the first random name that the profile accepts. -/
def anonymous (w : ω) (h : Handler (Backend ω) σ) (_message : Option String) :
    Exchange σ × Outcome :=
  ({ h.exchange with username := some (h.profile.backend.anonymous w) }, { status := .success })

/-- `EXTERNAL`. Expired credentials have a status of their own. -/
def external (saslprep : String → Option String) (w : ω) (h : Handler (Backend ω) σ)
    (message : Option String) : Exchange σ × Outcome :=
  let (username, state) := h.profile.backend.external w (message.bind saslprep)
  let exchange := { h.exchange with username := username }
  match state with
  | .disabled => (exchange, ⟨.failure, some "account-disabled", none⟩)
  | .nonexistent => (exchange, ⟨.failure, some "not-authorized", none⟩)
  | .expired => (exchange, ⟨.other "false", some "credentials-expired", none⟩)
  | .enabled => (exchange, { status := .success })

def registered (saslprep nodeprep : String → Option String) :
    Mechanisms ω (Backend ω) σ := fun name w h message =>
  if name = "PLAIN" then plain saslprep nodeprep w h message
  else if name = "ANONYMOUS" then anonymous w h message
  else if name = "EXTERNAL" then external saslprep w h message
  else (h.exchange, { status := .failure })

end

end Prosody.Sasl
