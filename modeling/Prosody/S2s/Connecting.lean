import Mathlib.Data.List.Infix
import Mathlib.Data.Prod.Lex
import Prosody.Util.Rfc6724

/-! # The targets of outgoing sessions (`mod_s2s/s2sout.lib.lua`)

One session towards `to_host`, from the first lookup on, with `ondisconnect` of `mod_s2s.lua` and
`destroy_session` of `s2smanager.lua`. A lookup and a connection may end at once or later. -/

namespace Prosody.S2s.Connecting

inductive Family
  | v4 | v6
  deriving DecidableEq

/-- What `new_ip` makes. -/
structure Ip where
  addr : String
  family : Family
  deriving DecidableEq

structure Srv where
  priority : ℕ
  weight : ℕ
  port : ℕ
  target : String
  deriving DecidableEq

structure Endpoint where
  ip : Ip
  port : ℕ
  deriving DecidableEq

/-! ## Orders -/

def compareSrvPriorities (a b : Srv) : Bool :=
  a.priority < b.priority || (a.priority == b.priority && a.weight > b.weight)

/-- How `table.sort` may order the records. -/
structure SrvOrder where
  sort : List Srv → List Srv
  perm : ∀ records, (sort records).Perm records
  sorted : ∀ records, (sort records).Pairwise fun r r' => compareSrvPriorities r' r = false

/-! ## The session -/

structure Config where
  toHost : String
  /-- `idna_to_ascii` of it -/
  ascii : Option String
  v4 : Bool
  v6 : Bool
  available : (v4 || v6) = true
  order : SrvOrder

/-- What happens at once while an event is handled: the cached answers, the order of addresses,
and the attempts that do not fail. The lookups are told apart by the number of the target, the
attempts by their own number. -/
structure Env where
  srv : Option (List Srv)
  reply : ℕ → Family → Option (List String)
  comp : ℕ → Ip → Ip → Bool
  connects : ℕ → Bool

/-- A call of `try_connect` for a target: the variables its two callbacks share. The addresses are
also kept in the order in which they were heard of. -/
structure Target where
  host : String
  port : ℕ
  ips : List Ip := []
  haveOtherResult : Bool
  waiting4 : Bool := false
  waiting6 : Bool := false
  heard : List Ip := []

namespace Target

def waiting (t : Target) : Family → Bool
  | .v4 => t.waiting4
  | .v6 => t.waiting6

def setWaiting (t : Target) (family : Family) (b : Bool) : Target :=
  match family with
  | .v4 => { t with waiting4 := b }
  | .v6 => { t with waiting6 := b }

def answer (t : Target) (family : Family) (reply : List String) : Target :=
  let new := reply.map (⟨·, family⟩)
  { t with ips := t.ips ++ new, heard := t.heard ++ new, haveOtherResult := true }.setWaiting
    family false

def lookup (t : Target) (available : Bool) (reply : Option (List String)) (family : Family) :
    Target × Bool :=
  if available then
    match reply with
    | some reply => (t.answer family reply, t.haveOtherResult)
    | none => (t.setWaiting family true, false)
  else ({ t with haveOtherResult := true }, false)

def endpoints (t : Target) : List Endpoint := t.ips.map (⟨·, t.port⟩)

end Target

/-- An attempt, and whether the session was destroyed when it was made. -/
structure Attempt where
  endpoint : Endpoint
  late : Bool

/-- The fields of the session that choose the target, the lookups and connections in progress, and
what has been done so far. `ip_hosts` is the table of the target it names, and `live` lists the
connections that are registered. -/
structure State where
  srvPending : Bool := false
  srvHosts : Option (List Srv) := none
  srvChoice : ℕ := 0
  ipHosts : Option ℕ := none
  ipChoice : ℕ := 0
  destroyed : Bool := false
  notopen : Bool := false
  targets : List Target := []
  attempts : List Attempt := []
  live : List ℕ := []
  /-- The answer to the lookup of the service, in the order in which it was sorted. -/
  answer : Option (List Srv) := none
  /-- The session came to an end for another reason than that nothing was left to try. -/
  ended : Bool := false
  raised : Bool := false

def raise (s : State) : State := { s with raised := true }

/-- `destroy_session`, which clears the fields of the session. -/
def destroy (s : State) : State :=
  if s.destroyed then s
  else { s with
    destroyed := true, srvHosts := none, srvChoice := 0, ipHosts := none, ipChoice := 0,
    notopen := false }

/-- What is done with the result of a call that may have found nothing left to try. -/
def orDestroy (r : Bool × State) : State := if r.1 then r.2 else destroy r.2

def nextIp (s : State) : Option Endpoint :=
  s.ipHosts.bind fun k => s.targets[k]?.bind fun t => t.endpoints[s.ipChoice]?

/-- The callback of a lookup up to the second answer, and whether it goes on. -/
def record (s : State) (k : ℕ) (family : Family) (reply : List String) : State × Bool :=
  match s.targets[k]? with
  | none => (s, false)
  | some t =>
    ({ s with targets := s.targets.set k (t.answer family reply) }, t.haveOtherResult)

/-- `resolver:lookup` for one family, which is answered at once or later, or what is done without
that family. -/
def lookup (available : Bool) (env : Env) (s : State) (k : ℕ) (family : Family) : State × Bool :=
  match s.targets[k]? with
  | none => (s, false)
  | some t =>
    let r := t.lookup available (env.reply k family) family
    ({ s with targets := s.targets.set k r.1 }, r.2)

def srvLeft (s : State) : ℕ := (s.srvHosts.map fun hosts => hosts.length - s.srvChoice).getD 0

/-- The number of addresses that are left, and one more while the target is still the choice. -/
def ipsLeft (s : State) : ℕ :=
  (s.ipHosts.map fun k =>
    ((s.targets[k]?.map fun t => t.ips.length).getD 0) - s.ipChoice + 1).getD 0

@[simp] theorem srvLeft_lookup (available : Bool) (env : Env) (s : State) (k : ℕ)
    (family : Family) : srvLeft (lookup available env s k family).1 = srvLeft s := by
  unfold lookup
  split <;> rfl

theorem ipsLeft_lt {s s' : State} {e : Endpoint} (h : nextIp s = some e)
    (htargets : s'.targets = s.targets) (hhosts : s'.ipHosts = s.ipHosts)
    (hchoice : s'.ipChoice = s.ipChoice + 1) : ipsLeft s' < ipsLeft s := by
  unfold nextIp at h
  unfold ipsLeft
  rw [htargets, hhosts, hchoice]
  cases hk : s.ipHosts with
  | none =>
    rw [hk] at h
    cases h
  | some k =>
    rw [hk, Option.bind_some] at h
    cases ht : s.targets[k]? with
    | none =>
      rw [ht] at h
      cases h
    | some t =>
      rw [ht, Option.bind_some] at h
      obtain ⟨hlt, -⟩ := List.getElem?_eq_some_iff.mp h
      rw [Target.endpoints, List.length_map] at hlt
      simp only [Option.map_some, Option.getD_some, ht]
      omega

section

variable (cfg : Config) (env : Env)

mutual

/-- `attempt_connection` with an error. -/
def attemptConnection (s : State) : Bool × State :=
  if s.destroyed ∨ cfg.ascii = none then (false, s)
  else if s.ipHosts.isSome then retryConnect s
  else
    match _h : s.srvHosts with
    | none => (false, s)
    | some hosts =>
      match _h' : hosts[s.srvChoice]? with
      | none => (false, s)
      | some srv => tryConnect { s with srvChoice := s.srvChoice + 1 } srv.target srv.port
termination_by (srvLeft s, 0, ipsLeft s, 2)
decreasing_by
  · exact Prod.Lex.right _ (Prod.Lex.right _ (Prod.Lex.right _ (by decide)))
  · refine Prod.Lex.left _ _ ?_
    obtain ⟨hlt, -⟩ := List.getElem?_eq_some_iff.mp _h'
    simp only [srvLeft, _h, Option.map_some, Option.getD_some]
    omega

/-- `try_connect` with an error, which `attempt_connection` calls while there is a table of
addresses. -/
def retryConnect (s : State) : Bool × State :=
  if (nextIp s).isSome then (true, tryNextIp s)
  else if s.ipHosts.isSome then
    let r := attemptConnection { s with ipHosts := none }
    if r.1 then (true, r.2) else (false, destroy r.2)
  else (false, s)
termination_by (srvLeft s, 0, ipsLeft s, 1)
decreasing_by
  · exact Prod.Lex.right _ (Prod.Lex.right _ (Prod.Lex.right _ (by decide)))
  · rename_i h
    refine Prod.Lex.right _ (Prod.Lex.right _ (Prod.Lex.left _ _ ?_))
    obtain ⟨k, hk⟩ := Option.isSome_iff_exists.mp h
    simp only [ipsLeft, hk, Option.map_some, Option.getD_some, Option.map_none, Option.getD_none]
    omega

def tryNextIp (s : State) : State :=
  match _h : nextIp s with
  | none => raise s
  | some e =>
    let s' := { s with
      ipChoice := s.ipChoice + 1, attempts := s.attempts ++ [⟨e, s.destroyed⟩] }
    if env.connects s.attempts.length then
      { s' with live := s.live ++ [s.attempts.length], notopen := true }
    else orDestroy (attemptConnection s')
termination_by (srvLeft s, 0, ipsLeft s, 0)
decreasing_by
  exact Prod.Lex.right _ (Prod.Lex.right _ (Prod.Lex.left _ _ (ipsLeft_lt _h rfl rfl rfl)))

def answered (s : State) (k : ℕ) : State :=
  if (s.targets[k]?.map Target.ips).getD [] ≠ [] then
    match s.ipHosts with
    | none => raise s
    | some j => tryNextIp { s with
        targets := s.targets.modify j fun t => { t with ips := Rfc6724.tSort t.ips (env.comp j) }
        ipChoice := 0 }
  else orDestroy (attemptConnection { s with ipHosts := none })
termination_by (srvLeft s, 1, 0, 0)
decreasing_by
  · exact Prod.Lex.right _ (Prod.Lex.left _ _ (by decide))
  · exact Prod.Lex.right _ (Prod.Lex.left _ _ (by decide))

/-- `try_connect` without an error. A session that is destroyed has no resolver. -/
def tryConnect (s : State) (host : String) (port : ℕ) : Bool × State :=
  let k := s.targets.length
  let s₁ := { s with
    targets := s.targets ++ [{ host, port, haveOtherResult := !(cfg.v4 && cfg.v6) }]
    ipHosts := some k }
  if s.destroyed then (true, raise s₁)
  else
    let r₄ := lookup cfg.v4 env s₁ k .v4
    -- this early only without the other family
    if r₄.2 then (true, answered r₄.1 k)
    else
      let r₆ := lookup cfg.v6 env r₄.1 k .v6
      if r₆.2 then (true, answered r₆.1 k) else (true, r₆.1)
termination_by (srvLeft s, 2, 0, 0)
decreasing_by
  · simp only [srvLeft_lookup]
    exact Prod.Lex.right _ (Prod.Lex.left _ _ (by decide))
  · simp only [srvLeft_lookup]
    exact Prod.Lex.right _ (Prod.Lex.left _ _ (by decide))

end

/-! ## What happens -/

def srvAnswered (s : State) (answer : List Srv) : State :=
  let hosts := if answer.map Srv.target = ["."] then answer else cfg.order.sort answer
  let s := { s with srvPending := false, srvHosts := some hosts, srvChoice := 0,
                    answer := some hosts }
  match hosts with
  | [] => (tryConnect cfg env s (cfg.ascii.getD "") 5269).2
  | srv :: _ =>
    if answer.map Srv.target = ["."] then destroy { s with ended := true }
    else (tryConnect cfg env { s with srvChoice := 1 } srv.target srv.port).2

/-- `initiate_connection`, with `attempt_connection` without an error. -/
def initiate : State :=
  if cfg.ascii = none then destroy { ended := true }
  else
    match env.srv with
    | some answer => srvAnswered cfg env {} answer
    | none => { srvPending := true }

end

inductive Event
  | srv (answer : List Srv) (env : Env)
  | address (k : ℕ) (family : Family) (reply : List String) (env : Env)
  /-- `ondisconnect`, with an error or without. -/
  | disconnected (conn : ℕ) (err : Bool) (env : Env)
  /-- A stream is opened, or has to be opened again. -/
  | stream (notopen : Bool)
  /-- The session is destroyed by something else. -/
  | destroy

def step (cfg : Config) (s : State) : Event → State
  | .srv answer env => if s.srvPending then srvAnswered cfg env s answer else s
  | .address k family reply env =>
    if (s.targets[k]?.map (·.waiting family)).getD false then
      let r := record s k family reply
      if r.2 then answered cfg env r.1 k else r.1
    else s
  | .disconnected conn err env =>
    if conn ∈ s.live then
      let s' := { s with live := s.live.erase conn }
      if err && !s.destroyed && s.notopen then orDestroy (attemptConnection cfg env s')
      else Connecting.destroy { s' with ended := true }
    else s
  | .stream notopen => if s.destroyed then s else { s with notopen := notopen }
  | .destroy => Connecting.destroy { s with ended := true }

end Prosody.S2s.Connecting
