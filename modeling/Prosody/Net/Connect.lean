import Mathlib.Data.List.Perm.Subperm
import Mathlib.Data.List.Sort
import Mathlib.Logic.Function.Iterate

/-! # Outgoing connections

`net/connect.lua` with the resolvers of `net/resolvers/`. A lookup calls back once, and a connection
that is being set up calls one of its listeners once. -/

namespace Prosody.Connect

/-- The field of `extra` that a resolver reads. -/
structure Extra where
  defaultPort : Option Nat
  deriving DecidableEq

structure Target where
  connType : String
  ip : String
  port : Nat
  extra : Option Extra
  deriving DecidableEq

inductive Family where
  | v4
  | v6

structure Srv where
  target : String
  port : Nat
  priority : Nat

/-- How `table.sort` may order the records. -/
structure SrvOrder where
  sort : List Srv → List Srv
  perm : ∀ records, (sort records).Perm records
  sorted : ∀ records, (sort records).Pairwise fun r r' => r.priority ≤ r'.priority

/-- The answers to all lookups, without a value for a lookup that fails. -/
structure Dns where
  pton : String → Option Family
  a : String → Option (List String)
  aaaa : String → Option (List String)
  /-- Which of the two answers arrives first. -/
  aFirst : String → Bool
  srv : String → Option (List Srv)
  order : SrvOrder

variable (dns : Dns)

/-! ## `resolvers/basic.lua` -/

/-- The arguments of `new`. -/
structure Endpoint where
  hostname : String
  port : Nat
  connType : Option String
  extra : Option Extra

namespace Basic

structure Resolver where
  hostname : String
  port : Nat
  connType : String
  extra : Option Extra
  targets : Option (List Target)

def new (e : Endpoint) : Resolver :=
  { hostname := e.hostname
    port := e.port
    connType := e.connType.getD "tcp"
    extra := e.extra
    targets := none }

/-- The targets that two answers make. -/
def resolve (r : Resolver) : List Target :=
  let targets (suffix : String) (answer : Option (List String)) : List Target :=
    (answer.getD []).map fun ip => ⟨r.connType ++ suffix, ip, r.port, r.extra⟩
  let v4 := targets "4" (dns.a r.hostname)
  let v6 := targets "6" (dns.aaaa r.hostname)
  if dns.aFirst r.hostname then v4 ++ v6 else v6 ++ v4

def take (r : Resolver) : List Target → Option Target × Resolver
  | [] => (none, { r with targets := some [] })
  | target :: targets => (some target, { r with targets := some targets })

def literal (r : Resolver) (family : Family) : Target :=
  match family with
  | .v6 => ⟨r.connType ++ "6", r.hostname, r.port, r.extra⟩
  | .v4 => ⟨r.connType ++ "4", r.hostname, r.port, r.extra⟩

def next (r : Resolver) : Option Target × Resolver :=
  match r.targets with
  | some targets => take r targets
  | none =>
    match dns.pton r.hostname with
    -- the address is handed out, and nothing is remembered
    | some family => (some (literal r family), r)
    | none => take r (resolve dns r)

end Basic

/-! ## `resolvers/service.lua` -/

namespace Service

structure Resolver where
  hostname : String
  service : String
  connType : String
  extra : Option Extra
  targets : Option (List Endpoint)
  /-- The resolver of the last target. -/
  resolver : Option Basic.Resolver

def new (hostname service : String) (connType : Option String) (extra : Option Extra) : Resolver :=
  { hostname := hostname
    service := service
    connType := connType.getD "tcp"
    extra := extra
    targets := none
    resolver := none }

def resolve (r : Resolver) : List Endpoint :=
  match dns.srv ("_" ++ r.service ++ "._" ++ r.connType ++ "." ++ r.hostname) with
  | none => []
  | some [] =>
    match r.extra.bind Extra.defaultPort with
    | none => []
    | some port => [⟨r.hostname, port, some r.connType, r.extra⟩]
  | some records =>
    if records.map Srv.target = ["."] then []
    else (dns.order.sort records).map fun record =>
      ⟨record.target, record.port, some r.connType, r.extra⟩

/-- The first target whose own resolver hands out anything. -/
def take (r : Resolver) : List Endpoint → Option Target × Resolver
  | [] => (none, { r with targets := some [] })
  | endpoint :: endpoints =>
    let nested := Basic.next dns (Basic.new endpoint)
    match nested.1 with
    | none => take { r with resolver := some nested.2 } endpoints
    | some target => (some target, { r with targets := some endpoints, resolver := some nested.2 })

def next (r : Resolver) : Option Target × Resolver :=
  match r.targets with
  | some targets => take dns r targets
  | none => take dns r (resolve dns r)

end Service

/-! ## `connect.lua` -/

/-- How an attempt ends: at once, through `ondisconnect` or through `onconnect`. -/
inductive Outcome where
  | refused (err : Option String)
  | disconnected (reason : Option String)
  | connected
  deriving DecidableEq

/-- A call of one of the listeners that `connect` was given. -/
inductive Call where
  | onconnect
  | onfail (error : String)
  deriving DecidableEq

structure Pending (ρ : Type*) where
  targetResolver : ρ
  lastError : Option String
  tried : List Target
  calls : List Call

section

variable {ρ : Type*} (next : ρ → Option Target × ρ) (outcomes : Nat → Outcome)

/-- `attempt_connection`, up to the end of the attempt. -/
def attemptConnection (p : Pending ρ) : Pending ρ :=
  match next p.targetResolver with
  | (none, r) =>
    { p with
      targetResolver := r
      calls := p.calls ++ [.onfail (p.lastError.getD "unable to resolve service")] }
  | (some target, r) =>
    let p' := { p with targetResolver := r, tried := p.tried ++ [target] }
    match outcomes p.tried.length with
    | .refused err => { p' with lastError := some (err.getD "unknown reason") }
    | .disconnected reason => { p' with lastError := some (reason.getD "unknown reason") }
    | .connected => { p' with calls := p.calls ++ [.onconnect] }

/-- Another attempt, as long as no listener has been called. -/
def step (p : Pending ρ) : Pending ρ :=
  if p.calls = [] then attemptConnection next outcomes p else p

def connect (targetResolver : ρ) : Pending ρ :=
  { targetResolver := targetResolver, lastError := none, tried := [], calls := [] }

def after (targetResolver : ρ) (n : Nat) : Pending ρ :=
  (step next outcomes)^[n] (connect targetResolver)

end

/-! ## What should be tried -/

def Endpoint.addresses (e : Endpoint) : List Target :=
  match dns.pton e.hostname with
  | some family => [Basic.literal (Basic.new e) family]
  | none => Basic.resolve dns (Basic.new e)

/-- A resolver that has just been made. -/
inductive Choice where
  | basic (endpoint : Endpoint)
  | service (hostname name : String) (connType : Option String) (extra : Option Extra)

/-- The targets of a service, each with addresses of its own. -/
def Choice.endpoints : Choice → List Endpoint
  | .basic endpoint => [endpoint]
  | .service hostname name connType extra =>
    Service.resolve dns (Service.new hostname name connType extra)

def Choice.addresses (choice : Choice) : List Target :=
  (choice.endpoints dns).flatMap (Endpoint.addresses dns)

def firsts (endpoints : List Endpoint) : List Target :=
  endpoints.filterMap fun e => (e.addresses dns).head?

/-- One listener has been called, no address was tried more often than it is there, and `onfail` was
called after all of them have been tried in vain. -/
structure Concluded {ρ : Type*} (addresses : List Target) (outcomes : Nat → Outcome)
    (p : Pending ρ) : Prop where
  called : ∃ call, p.calls = [call]
  once : p.tried.Subperm addresses
  failed : ∀ error, p.calls = [.onfail error] →
    p.tried.Perm addresses ∧ ∀ i < p.tried.length, outcomes i ≠ .connected

/-- The attempts come to such an end. -/
def Choice.Ends (choice : Choice) (outcomes : Nat → Outcome) : Prop :=
  match choice with
  | .basic endpoint =>
    ∃ n, Concluded (choice.addresses dns) outcomes
      (after (Basic.next dns) outcomes (Basic.new endpoint) n)
  | .service hostname name connType extra =>
    ∃ n, Concluded (choice.addresses dns) outcomes
      (after (Service.next dns) outcomes (Service.new hostname name connType extra) n)

/-- The first attempt at a literal address succeeds; one of the first addresses of a service's
targets is reached, or no target has another one. -/
def Choice.Suffices (choice : Choice) (outcomes : Nat → Outcome) : Prop :=
  match choice with
  | .basic endpoint => (dns.pton endpoint.hostname).isSome → outcomes 0 = .connected
  | .service hostname name connType extra =>
    let endpoints := Service.resolve dns (Service.new hostname name connType extra)
    (∃ i < (firsts dns endpoints).length, outcomes i = .connected) ∨
      ∀ e ∈ endpoints, (e.addresses dns).length ≤ 1

/-! ## Resolvers that come to an end -/

section

variable {ρ : Type*} {next : ρ → Option Target × ρ} {outcomes : Nat → Outcome}

/-- The resolver hands out these targets, and then says that there are no more. -/
inductive Yields (next : ρ → Option Target × ρ) : ρ → List Target → Prop where
  | done {r r' : ρ} : next r = (none, r') → Yields next r []
  | more {r r' : ρ} {target : Target} {targets : List Target} :
      next r = (some target, r') → Yields next r' targets → Yields next r (target :: targets)

theorem iterate_settled {p : Pending ρ} (h : p.calls ≠ []) (n : Nat) :
    (step next outcomes)^[n] p = p := by
  have hfixed : step next outcomes p = p := if_neg h
  exact Function.iterate_fixed hfixed n

theorem settled_unique {p : Pending ρ} {m n : Nat}
    (hm : ((step next outcomes)^[m] p).calls ≠ [])
    (hn : ((step next outcomes)^[n] p).calls ≠ []) :
    (step next outcomes)^[m] p = (step next outcomes)^[n] p := by
  rcases Nat.le_total m n with hle | hle
  · obtain ⟨k, rfl⟩ := Nat.exists_eq_add_of_le' hle
    rw [Function.iterate_add_apply, iterate_settled hm]
  · obtain ⟨k, rfl⟩ := Nat.exists_eq_add_of_le' hle
    rw [Function.iterate_add_apply, iterate_settled hn]

variable {r : ρ}

theorem step_none (outcomes : Nat → Outcome) {p : Pending ρ} (h : p.calls = [])
    (hnext : next p.targetResolver = (none, r)) :
    ∃ error, (step next outcomes p).calls = [.onfail error] ∧
      (step next outcomes p).tried = p.tried := by
  refine ⟨p.lastError.getD "unable to resolve service", ?_, ?_⟩
  all_goals simp [step, h, attemptConnection, hnext]

theorem step_some (outcomes : Nat → Outcome) {p : Pending ρ} (h : p.calls = []) {target : Target}
    (hnext : next p.targetResolver = (some target, r)) :
    (step next outcomes p).tried = p.tried ++ [target] ∧ (step next outcomes p).targetResolver = r ∧
      (step next outcomes p).calls =
        if outcomes p.tried.length = .connected then [.onconnect] else [] := by
  unfold step attemptConnection
  rw [if_pos h, hnext]
  cases outcomes p.tried.length <;> simp [h]

theorem tried_length_le (p : Pending ρ) (n : Nat) :
    p.tried.length ≤ ((step next outcomes)^[n] p).tried.length := by
  induction n generalizing p with
  | zero => exact Nat.le_refl _
  | succ n ih =>
    rw [Function.iterate_succ_apply]
    refine Nat.le_trans ?_ (ih _)
    by_cases hcalls : p.calls = []
    · rcases hnext : next p.targetResolver with ⟨_ | target, r⟩
      · obtain ⟨_, -, htried⟩ := step_none outcomes hcalls hnext
        exact Nat.le_of_eq (congrArg List.length htried.symm)
      · obtain ⟨htried, -, -⟩ := step_some outcomes hcalls hnext
        rw [htried, List.length_append]
        exact Nat.le_add_right _ _
    · rw [step, if_neg hcalls]

theorem Yields.concludes (outcomes : Nat → Outcome) {targets : List Target}
    (h : Yields next r targets) {p : Pending ρ} (hr : p.targetResolver = r) (hcalls : p.calls = []) :
    ∃ n, (∃ i < targets.length, outcomes (p.tried.length + i) = .connected ∧
        ((step next outcomes)^[n] p).calls = [.onconnect] ∧
        ((step next outcomes)^[n] p).tried = p.tried ++ targets.take (i + 1)) ∨
      (∀ i < targets.length, outcomes (p.tried.length + i) ≠ .connected) ∧
        (∃ error, ((step next outcomes)^[n] p).calls = [.onfail error]) ∧
        ((step next outcomes)^[n] p).tried = p.tried ++ targets := by
  induction h generalizing p with
  | done hnext =>
    obtain ⟨error, hfail, htried⟩ := step_none outcomes hcalls (hr ▸ hnext)
    refine ⟨1, Or.inr ⟨fun i hi => absurd hi (Nat.not_lt_zero i), ⟨error, hfail⟩, ?_⟩⟩
    rw [List.append_nil]
    exact htried
  | @more r r' target targets hnext _ ih =>
    obtain ⟨htried, hresolver, hnew⟩ := step_some outcomes hcalls (hr ▸ hnext)
    by_cases hfirst : outcomes p.tried.length = .connected
    · rw [if_pos hfirst] at hnew
      refine ⟨1, Or.inl ⟨0, Nat.succ_pos _, hfirst, hnew, ?_⟩⟩
      simpa using htried
    · rw [if_neg hfirst] at hnew
      obtain ⟨n, hn⟩ := ih hresolver hnew
      rw [htried, List.length_append, List.length_singleton] at hn
      refine ⟨n + 1, ?_⟩
      rw [Function.iterate_succ_apply]
      rcases hn with ⟨i, hi, hreached, hcall, htaken⟩ | ⟨hvain, hfail, hall⟩
      · refine Or.inl ⟨i + 1, Nat.succ_lt_succ hi, ?_, hcall, ?_⟩
        · rwa [Nat.add_comm i 1, ← Nat.add_assoc]
        · rw [htaken, List.append_assoc]
          rfl
      · refine Or.inr ⟨fun i hi => ?_, hfail, ?_⟩
        · cases i with
          | zero => exact hfirst
          | succ i =>
            rw [Nat.add_comm i 1, ← Nat.add_assoc]
            exact hvain i (Nat.lt_of_succ_lt_succ hi)
        · rw [hall, List.append_assoc]
          rfl

/-- If it hands out some of the addresses in order, all that matters is whether one of these is
reached or none is left out. -/
theorem Yields.concluded_iff {targets addresses : List Target} (h : Yields next r targets)
    (hsub : targets.Sublist addresses) :
    (∃ n, Concluded addresses outcomes (after next outcomes r n)) ↔
      (∃ i < targets.length, outcomes i = .connected) ∨ targets.length = addresses.length := by
  obtain ⟨m, hm⟩ := h.concludes outcomes (p := connect r) rfl rfl
  simp only [connect, List.length_nil, Nat.zero_add, List.nil_append] at hm
  constructor
  · rintro ⟨n, ⟨call, hcall⟩, -, hfailed⟩
    rcases hm with ⟨i, hi, hreached, -⟩ | ⟨-, ⟨error, hfail⟩, htried⟩
    · exact Or.inl ⟨i, hi, hreached⟩
    · have hsame : after next outcomes r n = after next outcomes r m := by
        refine settled_unique ?_ ?_
        · rw [after] at hcall
          rw [hcall]
          exact List.cons_ne_nil _ _
        · rw [connect, hfail]
          exact List.cons_ne_nil _ _
      have hperm := (hfailed error (by rw [hsame]; exact hfail)).1
      rw [hsame] at hperm
      have htargets : (after next outcomes r m).tried = targets := htried
      rw [htargets] at hperm
      exact Or.inr hperm.length_eq
  · intro hcondition
    refine ⟨m, ?_⟩
    rcases hm with ⟨i, hi, hreached, hcall, htried⟩ | ⟨hvain, ⟨error, hfail⟩, htried⟩
    · refine ⟨⟨_, hcall⟩, ?_, fun error hno => ?_⟩
      · have htaken : (after next outcomes r m).tried = targets.take (i + 1) := htried
        rw [htaken]
        exact ((List.take_sublist _ _).trans hsub).subperm
      · have hcall' : (after next outcomes r m).calls = [.onconnect] := hcall
        rw [hcall'] at hno
        cases hno
    · have htargets : (after next outcomes r m).tried = targets := htried
      refine ⟨⟨_, hfail⟩, by rw [htargets]; exact hsub.subperm, fun _ _ => ?_⟩
      rw [htargets]
      rcases hcondition with ⟨i, hi, hreached⟩ | hlength
      · exact absurd hreached (hvain i hi)
      · rw [hsub.eq_of_length hlength] at hvain ⊢
        exact ⟨List.Perm.refl _, hvain⟩

theorem ends_iff_of_repeats {target : Target} (h : next r = (some target, r)) :
    (∃ n, Concluded [target] outcomes (after next outcomes r n)) ↔ outcomes 0 = .connected := by
  obtain ⟨htried, hresolver, hcalls⟩ :=
    step_some outcomes (p := connect r) rfl h
  constructor
  · rintro ⟨n, ⟨call, hcall⟩, honce, -⟩
    by_contra hmissed
    rw [show (connect r).tried.length = 0 from rfl, if_neg hmissed] at hcalls
    have hagain : next (step next outcomes (connect r)).targetResolver = (some target, r) := by
      rw [hresolver, h]
    obtain ⟨htwice, -, -⟩ := step_some outcomes hcalls hagain
    cases n with
    | zero => cases hcall
    | succ n =>
      rw [after, Function.iterate_succ_apply] at hcall honce
      cases n with
      | zero =>
        rw [Function.iterate_zero_apply, hcalls] at hcall
        cases hcall
      | succ n =>
        rw [Function.iterate_succ_apply] at honce
        have hlength := Nat.le_trans (tried_length_le _ n) honce.length_le
        rw [htwice, htried] at hlength
        exact absurd hlength (by simp [connect])
  · intro hreached
    rw [show (connect r).tried.length = 0 from rfl, if_pos hreached] at hcalls
    refine ⟨1, ⟨_, hcalls⟩, ?_, fun error hno => ?_⟩
    · rw [after, Function.iterate_one, htried]
      exact (List.Perm.refl _).subperm
    · rw [after, Function.iterate_one, hcalls] at hno
      cases hno

end

/-! ## The two resolvers -/

variable {dns}

theorem Basic.yields {targets : List Target} {r : Basic.Resolver}
    (h : r.targets = some targets) : Yields (Basic.next dns) r targets := by
  induction targets generalizing r with
  | nil => exact .done (by rw [Basic.next, h]; rfl)
  | cons target targets ih => exact .more (by rw [Basic.next, h]; rfl) (ih rfl)

theorem Basic.yields_new {e : Endpoint} (h : dns.pton e.hostname = none) :
    Yields (Basic.next dns) (Basic.new e) (e.addresses dns) := by
  have hnext : Basic.next dns (Basic.new e) =
      Basic.take (Basic.new e) (Basic.resolve dns (Basic.new e)) := by
    simp only [Basic.next, Basic.new, h]
  rw [Endpoint.addresses, h]
  dsimp only
  cases htargets : Basic.resolve dns (Basic.new e) with
  | nil => exact .done (by rw [hnext, htargets]; rfl)
  | cons target targets => exact .more (by rw [hnext, htargets]; rfl) (Basic.yields rfl)

theorem Basic.next_literal {e : Endpoint} {family : Family}
    (h : dns.pton e.hostname = some family) :
    Basic.next dns (Basic.new e) = (some (Basic.literal (Basic.new e) family), Basic.new e) := by
  simp only [Basic.next, Basic.new, h]

theorem Basic.next_new (e : Endpoint) :
    (Basic.next dns (Basic.new e)).1 = (e.addresses dns).head? := by
  cases h : dns.pton e.hostname with
  | some family =>
    rw [Basic.next_literal h, Endpoint.addresses, h]
    rfl
  | none =>
    have hyields := Basic.yields_new h
    generalize e.addresses dns = targets at hyields ⊢
    cases hyields with
    | done hnext => rw [hnext]; rfl
    | more hnext _ => rw [hnext]; rfl

theorem firsts_cons_none {endpoint : Endpoint} (h : (endpoint.addresses dns).head? = none)
    (endpoints : List Endpoint) : firsts dns (endpoint :: endpoints) = firsts dns endpoints :=
  List.filterMap_cons_none h

theorem firsts_cons_some {endpoint : Endpoint} {target : Target}
    (h : (endpoint.addresses dns).head? = some target) (endpoints : List Endpoint) :
    firsts dns (endpoint :: endpoints) = target :: firsts dns endpoints :=
  List.filterMap_cons_some h

theorem Service.yields {endpoints : List Endpoint} {r r' : Service.Resolver}
    (h : Service.next dns r = Service.take dns r' endpoints) :
    Yields (Service.next dns) r (firsts dns endpoints) := by
  induction endpoints generalizing r r' with
  | nil => exact .done h
  | cons endpoint endpoints ih =>
    have hfirst : (Basic.next dns (Basic.new endpoint)).1 = (endpoint.addresses dns).head? :=
      Basic.next_new endpoint
    rw [Service.take] at h
    cases hhead : (endpoint.addresses dns).head? with
    | none =>
      rw [firsts_cons_none hhead]
      rw [hfirst, hhead] at h
      exact ih h
    | some target =>
      rw [firsts_cons_some hhead]
      rw [hfirst, hhead] at h
      exact .more h (ih rfl)

theorem firsts_sublist (endpoints : List Endpoint) :
    (firsts dns endpoints).Sublist (endpoints.flatMap (Endpoint.addresses dns)) := by
  induction endpoints with
  | nil => exact List.Sublist.refl _
  | cons endpoint endpoints ih =>
    rw [List.flatMap_cons]
    cases h : endpoint.addresses dns with
    | nil => rwa [firsts_cons_none (by rw [h]; rfl), List.nil_append]
    | cons target targets =>
      rw [firsts_cons_some (by rw [h]; rfl), List.cons_append]
      exact (ih.trans (List.sublist_append_right _ _)).cons_cons _

theorem firsts_length_iff (endpoints : List Endpoint) :
    (firsts dns endpoints).length = (endpoints.flatMap (Endpoint.addresses dns)).length ↔
      ∀ e ∈ endpoints, (e.addresses dns).length ≤ 1 := by
  induction endpoints with
  | nil => simp [firsts]
  | cons endpoint endpoints ih =>
    have hle : (firsts dns endpoints).length ≤
        (endpoints.flatMap (Endpoint.addresses dns)).length :=
      (firsts_sublist endpoints).length_le
    rw [List.forall_mem_cons, ← ih, List.flatMap_cons, List.length_append]
    cases h : endpoint.addresses dns with
    | nil =>
      rw [firsts_cons_none (by rw [h]; rfl)]
      simp
    | cons target targets =>
      rw [firsts_cons_some (by rw [h]; rfl), List.length_cons, List.length_cons]
      omega

/-- The attempts end as they should exactly if no literal address has to be tried twice, and no
target of a service loses its second address. -/
theorem ends_iff (dns : Dns) (choice : Choice) (outcomes : Nat → Outcome) :
    choice.Ends dns outcomes ↔ choice.Suffices dns outcomes := by
  cases choice with
  | basic endpoint =>
    have haddresses : (Choice.basic endpoint).addresses dns = endpoint.addresses dns :=
      List.append_nil _
    unfold Choice.Ends Choice.Suffices
    rw [haddresses]
    cases h : dns.pton endpoint.hostname with
    | some family =>
      rw [Endpoint.addresses, h]
      refine (ends_iff_of_repeats (Basic.next_literal h)).trans ?_
      simp [h]
    | none =>
      refine ((Basic.yields_new h).concluded_iff (List.Sublist.refl _)).trans ?_
      simp [h]
  | service hostname name connType extra =>
    exact (Service.yields rfl).concluded_iff (firsts_sublist _) |>.trans
      (or_congr_right (firsts_length_iff _))

/-- By priority, and in the order of the answer among equals. -/
def stableOrder : SrvOrder where
  sort := List.insertionSort fun r r' => r.priority ≤ r'.priority
  perm := List.perm_insertionSort _
  sorted records := by
    have htotal : Std.Total fun r r' : Srv => r.priority ≤ r'.priority :=
      ⟨fun r r' => Nat.le_total r.priority r'.priority⟩
    have htrans : IsTrans Srv fun r r' => r.priority ≤ r'.priority :=
      ⟨fun _ _ _ => Nat.le_trans⟩
    exact List.pairwise_insertionSort _ records

/-- A server with two addresses, which is known by its name and by one of these. -/
def capulet : Dns where
  pton host := if host = "192.0.2.1" then some .v4 else none
  a host := if host = "xmpp.capulet.lit" then some ["192.0.2.1", "192.0.2.2"] else some []
  aaaa _ := some []
  aFirst _ := true
  srv name :=
    if name = "_xmpp-client._tcp.capulet.lit" then some [⟨"xmpp.capulet.lit", 5222, 1⟩] else none
  order := stableOrder

/-- A literal address that refuses the first attempt is tried again, and the second address of a
service's target is never tried. -/
theorem repeated_and_left_out :
    ¬ (Choice.basic ⟨"192.0.2.1", 80, none, none⟩).Ends capulet
        (fun i => if i = 0 then .refused none else .connected) ∧
      ¬ (Choice.service "capulet.lit" "xmpp-client" none none).Ends capulet
        (fun _ => .disconnected none) := by
  constructor
  · have hliteral : capulet.pton "192.0.2.1" = some .v4 := rfl
    intro hends
    have hfirst := (ends_iff_of_repeats (Basic.next_literal hliteral)).mp hends
    cases hfirst
  · intro hends
    rcases ((Service.yields rfl).concluded_iff (firsts_sublist _)).mp hends with ⟨_, _, hreached⟩ | hlength
    · cases hreached
    · revert hlength
      decide

end Prosody.Connect
