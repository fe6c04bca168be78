import Prosody.Library.Lists
import Prosody.Library.Runs
import Prosody.S2s.Connecting

/-! # What outgoing sessions try (`mod_s2s/s2sout.lib.lua`) -/

namespace Prosody.S2s.Connecting

/-! ## What is promised -/

namespace Target

def place (t : Target) : String × ℕ := (t.host, t.port)

/-- No lookup for the target is in progress. -/
def Idle (t : Target) : Prop := t.waiting4 = false ∧ t.waiting6 = false

end Target

/-- The hosts and ports for an answer to the lookup of the service. -/
def plan (cfg : Config) (hosts : List Srv) : List (String × ℕ) :=
  if hosts = [] then [(cfg.ascii.getD "", 5269)] else hosts.map fun srv => (srv.target, srv.port)

/-- All addresses of some targets, and the first so many of one more. -/
def soFar (past : List Target) (t : Target) (n : ℕ) : List Endpoint :=
  past.flatMap Target.endpoints ++ t.endpoints.take n

/-- Every target has been chosen and every address been tried without success. -/
def Exhausted (cfg : Config) (s : State) : Prop :=
  s.live = [] ∧ (∀ t ∈ s.targets, t.Idle) ∧
    s.attempts.map Attempt.endpoint = s.targets.flatMap Target.endpoints ∧
    ∃ hosts, s.answer = some hosts ∧ s.targets.map Target.place = plan cfg hosts

structure Right (cfg : Config) (s : State) : Prop where
  no_error : s.raised = false
  /-- The targets are chosen in the order of priority. -/
  order : ∀ hosts, s.answer = some hosts →
    hosts.Pairwise (fun r r' => r.priority ≤ r'.priority) ∧
      s.targets.map Target.place <+: plan cfg hosts
  unanswered : s.answer = none → s.targets = []
  /-- The addresses of a target are those that the lookups gave. -/
  addresses : ∀ t ∈ s.targets, t.ips.Perm t.heard
  /-- The addresses of all targets but the last one have been tried, each of them once, and some
  of the addresses of the last one. -/
  in_turn : s.targets = [] ∧ s.attempts = [] ∨ ∃ past t n, s.targets = past ++ [t] ∧
    s.attempts.map Attempt.endpoint = soFar past t n
  /-- All attempts but the last one have failed. -/
  failed : ∀ c ∈ s.live, c + 1 = s.attempts.length
  /-- Nothing is tried for a session that is destroyed. -/
  punctual : ∀ a ∈ s.attempts, a.late = false
  /-- The session is destroyed once there is nothing left. -/
  busy : s.destroyed = false →
    s.srvPending = true ∨ (∃ t ∈ s.targets, ¬ t.Idle) ∨ s.live ≠ []
  /-- It is not destroyed before, unless from outside or by the service. -/
  fate : s.destroyed = true → s.ended = true ∨ Exhausted cfg s

/-! ## Between two events -/

section

variable (cfg : Config)

structure Kept (s : State) : Prop where
  no_error : s.raised = false
  order : ∀ hosts, s.answer = some hosts →
    hosts.Pairwise (fun r r' => r.priority ≤ r'.priority) ∧
      s.targets.map Target.place <+: plan cfg hosts
  unanswered : s.answer = none → s.targets = []
  addresses : ∀ t ∈ s.targets, t.ips.Perm t.heard
  punctual : ∀ a ∈ s.attempts, a.late = false

/-- The session lives, and the last of its targets is the one it has chosen. -/
structure Choice (s : State) (past : List Target) (t : Target) : Prop where
  kept : Kept cfg s
  alive : s.destroyed = false
  named : cfg.ascii ≠ none
  asked : s.srvPending = false
  targets : s.targets = past ++ [t]
  idle : ∀ p ∈ past, p.Idle
  hosts : ∃ hosts, s.srvHosts = some hosts ∧ s.answer = some hosts ∧ (hosts = [] → past = []) ∧
    (hosts ≠ [] → s.srvChoice = past.length + 1)

/-- Which of the two lookups is in progress, as the callbacks know it. -/
structure Lookups (t : Target) : Prop where
  other : t.haveOtherResult = !(t.waiting4 && t.waiting6)
  some : t.waiting4 = true ∨ t.waiting6 = true

/-- Nothing has been tried. -/
structure Fresh (s : State) : Prop where
  no_error : s.raised = false
  alive : s.destroyed = false
  named : cfg.ascii ≠ none
  answer : s.answer = none
  targets : s.targets = []
  attempts : s.attempts = []
  live : s.live = []

structure Asking (s : State) : Prop extends Fresh cfg s where
  asked : s.srvPending = true

/-- The addresses of the last target are being looked up. -/
structure Waiting (s : State) (past : List Target) (t : Target) : Prop where
  choice : Choice cfg s past t
  attempts : s.attempts.map Attempt.endpoint = soFar past t 0
  live : s.live = []
  table : s.ipHosts = some past.length
  lookups : Lookups t

/-- All is known of the last target. -/
structure Ready (s : State) (past : List Target) (t : Target) : Prop where
  choice : Choice cfg s past t
  attempts : s.attempts.map Attempt.endpoint = soFar past t 0
  live : s.live = []
  table : s.ipHosts = some past.length
  idle : t.Idle

/-- A connection is in progress. -/
structure Trying (s : State) (past : List Target) (t : Target) : Prop where
  choice : Choice cfg s past t
  attempts : s.attempts.map Attempt.endpoint = soFar past t s.ipChoice
  live : ∃ c, s.live = [c] ∧ c + 1 = s.attempts.length
  table : s.ipHosts = some past.length
  idle : t.Idle

/-- An attempt has failed. -/
structure Between (s : State) (past : List Target) (t : Target) (n : ℕ) : Prop where
  choice : Choice cfg s past t
  attempts : s.attempts.map Attempt.endpoint = soFar past t n
  live : s.live = []
  table : s.ipHosts = some past.length ∧ s.ipChoice = n ∨ s.ipHosts = none ∧ t.ips.length ≤ n
  idle : t.Idle

/-- The session is destroyed. -/
structure Over (s : State) : Prop where
  kept : Kept cfg s
  destroyed : s.destroyed = true
  asked : s.srvPending = true → s.answer = none
  table : s.ipHosts = none
  last : s.targets = [] ∧ s.attempts = [] ∨ ∃ past t n, s.targets = past ++ [t] ∧
    (∀ p ∈ past, p.Idle) ∧ s.attempts.map Attempt.endpoint = soFar past t n ∧
    (t.Idle ∨ n = 0 ∧ s.ended = true)
  live : ∀ c ∈ s.live, c + 1 = s.attempts.length
  fate : s.ended = true ∨ Exhausted cfg s

/-- How a call ends that tries the next thing. -/
def Settled (s : State) : Prop :=
  (∃ past t, Waiting cfg s past t) ∨ (∃ past t, Trying cfg s past t) ∨ Over cfg s

/-- Nothing is left, and the session is not yet destroyed. -/
def Spent (s : State) : Prop :=
  ∃ past t n, Between cfg s past t n ∧ t.ips.length ≤ n ∧ s.ipHosts = none ∧
    ∃ hosts, s.answer = some hosts ∧ s.targets.map Target.place = plan cfg hosts

/-- What `attempt_connection` says of its success is right. -/
def Outcome (r : Bool × State) : Prop :=
  r.1 = true ∧ Settled cfg r.2 ∨ r.1 = false ∧ (Spent cfg r.2 ∨ Over cfg r.2)

end

/-! ## The last target -/

namespace Target

variable {t : Target}

@[simp] theorem place_setWaiting (family : Family) (b : Bool) :
    (t.setWaiting family b).place = t.place := by cases family <;> rfl

@[simp] theorem place_answer (family : Family) (reply : List String) :
    (t.answer family reply).place = t.place := place_setWaiting family false

theorem place_lookup (available : Bool) (reply : Option (List String)) (family : Family) :
    (t.lookup available reply family).1.place = t.place := by
  unfold lookup
  split
  · split
    · exact place_answer family _
    · exact place_setWaiting family true
  · rfl

theorem answer_perm (family : Family) (reply : List String) (h : t.ips.Perm t.heard) :
    (t.answer family reply).ips.Perm (t.answer family reply).heard := by
  cases family <;> exact h.append_right _

theorem lookup_perm (available : Bool) (reply : Option (List String)) (family : Family)
    (h : t.ips.Perm t.heard) :
    (t.lookup available reply family).1.ips.Perm (t.lookup available reply family).1.heard := by
  unfold lookup
  split
  · split
    · exact answer_perm family _ h
    · cases family <;> exact h
  · exact h

end Target

theorem record_last {s : State} {past : List Target} {t : Target} (h : s.targets = past ++ [t])
    (family : Family) (reply : List String) :
    record s past.length family reply =
      ({ s with targets := past ++ [t.answer family reply] }, t.haveOtherResult) := by
  unfold record
  rw [h, List.getElem?_concat_length]
  dsimp only
  rw [Lists.set_last]

theorem lookup_last {s : State} {past : List Target} {t : Target} (h : s.targets = past ++ [t])
    (available : Bool) (env : Env) (family : Family) :
    lookup available env s past.length family =
      ({ s with targets := past ++ [(t.lookup available (env.reply past.length family) family).1] },
        (t.lookup available (env.reply past.length family) family).2) := by
  unfold lookup
  rw [h, List.getElem?_concat_length]
  dsimp only
  rw [Lists.set_last]

/-! ## What a state keeps when its last target changes -/

section

variable {cfg : Config} {s : State} {past : List Target} {t t' : Target}

theorem Choice.replace (h : Choice cfg s past t) (hplace : t'.place = t.place)
    (hperm : t'.ips.Perm t'.heard) (k : Option ℕ) (n : ℕ) :
    Choice cfg { s with targets := past ++ [t'], ipHosts := k, ipChoice := n } past t' := by
  have hmap : (past ++ [t']).map Target.place = s.targets.map Target.place := by
    rw [h.targets]
    simp [hplace]
  obtain ⟨hosts, hsome, hanswer, hnil, hcons⟩ := h.hosts
  refine ⟨⟨h.kept.no_error, ?_, ?_, ?_, h.kept.punctual⟩, h.alive, h.named, h.asked, rfl, h.idle,
    hosts, hsome, hanswer, hnil, hcons⟩
  · intro hosts hhosts
    change _ ∧ (past ++ [t']).map Target.place <+: _
    rw [hmap]
    exact h.kept.order hosts hhosts
  · intro hnone
    rw [hanswer] at hnone
    cases hnone
  · intro p hp
    rcases List.mem_append.mp hp with hp | hp
    · exact h.kept.addresses p (h.targets ▸ List.mem_append_left _ hp)
    · rw [List.mem_singleton.mp hp]
      exact hperm

theorem soFar_all {n : ℕ} (h : t.ips.length ≤ n) :
    soFar past t n = (past ++ [t]).flatMap Target.endpoints := by
  have hlength : t.endpoints.length ≤ n := by rwa [Target.endpoints, List.length_map]
  rw [soFar, List.take_of_length_le hlength]
  simp

/-! ## Destroying the session -/

theorem destroy_of_destroyed (h : s.destroyed = true) : destroy s = s := if_pos h

theorem Spent.destroy (h : Spent cfg s) : Over cfg (destroy s) := by
  obtain ⟨past, t, n, hb, hn, -, hosts, hanswer, hplan⟩ := h
  have hc := hb.choice
  have heq : Connecting.destroy s = { s with
      destroyed := true, srvHosts := none, srvChoice := 0, ipHosts := none, ipChoice := 0,
      notopen := false } := if_neg (by rw [hc.alive]; exact Bool.false_ne_true)
  rw [heq]
  refine ⟨⟨hc.kept.no_error, hc.kept.order, hc.kept.unanswered, hc.kept.addresses,
    hc.kept.punctual⟩, rfl, ?_, rfl, .inr ⟨past, t, n, hc.targets, hc.idle, hb.attempts,
    .inl hb.idle⟩, ?_, .inr ⟨hb.live, ?_, ?_, hosts, hanswer, hplan⟩⟩
  · intro hpending
    have hno := hc.asked.symm.trans hpending
    cases hno
  · intro c hcl
    change c ∈ s.live at hcl
    rw [hb.live] at hcl
    cases hcl
  · intro p hp
    change p ∈ s.targets at hp
    rw [hc.targets] at hp
    rcases List.mem_append.mp hp with hp | hp
    · exact hc.idle p hp
    · rw [List.mem_singleton.mp hp]
      exact hb.idle
  · change s.attempts.map Attempt.endpoint = s.targets.flatMap Target.endpoints
    rw [hb.attempts, soFar_all hn, hc.targets]

theorem Outcome.orDestroy {r : Bool × State} (h : Outcome cfg r) : Settled cfg (orDestroy r) := by
  unfold Connecting.orDestroy
  rcases h with ⟨htrue, hsettled⟩ | ⟨hfalse, hspent | hover⟩
  · rw [if_pos htrue]
    exact hsettled
  · rw [if_neg (by rw [hfalse]; exact Bool.false_ne_true)]
    exact .inr (.inr hspent.destroy)
  · rw [if_neg (by rw [hfalse]; exact Bool.false_ne_true), destroy_of_destroyed hover.destroyed]
    exact .inr (.inr hover)

end

/-! ## Trying the next thing -/

structure Starting (cfg : Config) (s : State) (host : String) (port : ℕ) : Prop where
  kept : Kept cfg s
  alive : s.destroyed = false
  named : cfg.ascii ≠ none
  asked : s.srvPending = false
  idle : ∀ t ∈ s.targets, t.Idle
  live : s.live = []
  attempts : s.attempts.map Attempt.endpoint = s.targets.flatMap Target.endpoints
  hosts : ∃ hosts, s.srvHosts = some hosts ∧ s.answer = some hosts ∧
    (plan cfg hosts)[s.targets.length]? = some (host, port) ∧ (hosts = [] → s.targets = []) ∧
    (hosts ≠ [] → s.srvChoice = s.targets.length + 1)

section

variable {cfg : Config}

theorem Starting.choice {s : State} {host : String} {port : ℕ} (h : Starting cfg s host port)
    {t : Target} (hplace : t.place = (host, port)) (hperm : t.ips.Perm t.heard) :
    Choice cfg { s with targets := s.targets ++ [t], ipHosts := some s.targets.length }
      s.targets t := by
  obtain ⟨hosts, hsome, hanswer, hplan, hnil, hcons⟩ := h.hosts
  refine ⟨⟨h.kept.no_error, ?_, ?_, ?_, h.kept.punctual⟩, h.alive, h.named, h.asked, rfl, h.idle,
    hosts, hsome, hanswer, hnil, hcons⟩
  · intro hosts' hhosts
    obtain rfl := Option.some.inj (hanswer.symm.trans hhosts)
    obtain ⟨hsorted, hbegin⟩ := h.kept.order hosts hanswer
    refine ⟨hsorted, ?_⟩
    change (s.targets ++ [t]).map Target.place <+: _
    rw [List.map_append, List.map_singleton, hplace]
    exact Lists.prefix_concat_of_getElem? hbegin (by rw [List.length_map]; exact hplan)
  · intro hnone
    rw [hanswer] at hnone
    cases hnone
  · intro p hp
    rcases List.mem_append.mp hp with hp | hp
    · exact h.kept.addresses p hp
    · rw [List.mem_singleton.mp hp]
      exact hperm

variable {t : Target}

theorem Between.starting {s : State} {past : List Target} {n : ℕ}
    (h : Between cfg s past t n) (hn : t.ips.length ≤ n)
    {hosts : List Srv} (hhosts : s.srvHosts = some hosts) {srv : Srv}
    (hsrv : hosts[s.srvChoice]? = some srv) :
    Starting cfg { s with srvChoice := s.srvChoice + 1 } srv.target srv.port := by
  have hc := h.choice
  obtain ⟨hosts', hsome, hanswer, hnil, hcons⟩ := hc.hosts
  obtain rfl := Option.some.inj (hsome.symm.trans hhosts)
  have hne : hosts' ≠ [] := by
    rintro rfl
    cases hsrv
  have hlength : s.srvChoice = s.targets.length := by
    rw [hcons hne, hc.targets, List.length_append, List.length_singleton]
  refine ⟨⟨hc.kept.no_error, hc.kept.order, hc.kept.unanswered, hc.kept.addresses,
    hc.kept.punctual⟩, hc.alive, hc.named, hc.asked, ?_, h.live, ?_, hosts', hsome, hanswer,
    ?_, fun h => absurd h hne, fun _ => congrArg (· + 1) hlength⟩
  · intro p hp
    change p ∈ s.targets at hp
    rw [hc.targets] at hp
    rcases List.mem_append.mp hp with hp | hp
    · exact hc.idle p hp
    · rw [List.mem_singleton.mp hp]
      exact h.idle
  · change s.attempts.map Attempt.endpoint = s.targets.flatMap Target.endpoints
    rw [h.attempts, soFar_all hn, hc.targets]
  · change (plan cfg hosts')[s.targets.length]? = _
    rw [plan, if_neg hne, List.getElem?_map, ← hlength, hsrv]
    rfl

theorem Between.spent {s : State} {past : List Target} {n : ℕ}
    (h : Between cfg s past t n) (hnone : s.ipHosts = none) (hn : t.ips.length ≤ n)
    {hosts : List Srv} (hhosts : s.srvHosts = some hosts)
    (hsrv : hosts[s.srvChoice]? = none) : Spent cfg s := by
  have hc := h.choice
  obtain ⟨hosts', hsome, hanswer, hnil, hcons⟩ := hc.hosts
  obtain rfl := Option.some.inj (hsome.symm.trans hhosts)
  refine ⟨past, t, n, h, hn, hnone, hosts', hanswer, ?_⟩
  refine (hc.kept.order hosts' hanswer).2.eq_of_length_le ?_
  rw [List.length_map, hc.targets, List.length_append, List.length_singleton]
  by_cases hne : hosts' = []
  · rw [plan, if_pos hne]
    exact Nat.le_add_left _ _
  · rw [plan, if_neg hne, List.length_map, ← hcons hne]
    exact List.getElem?_eq_none_iff.mp hsrv

theorem Between.attempt {s : State} {past : List Target} {n : ℕ}
    (h : Between cfg s past t n) {e : Endpoint} (he : nextIp s = some e) :
    s.ipHosts = some past.length ∧ s.ipChoice = n ∧ Choice cfg { s with
        ipChoice := s.ipChoice + 1, attempts := s.attempts ++ [⟨e, s.destroyed⟩] } past t ∧
      (s.attempts ++ [Attempt.mk e s.destroyed]).map Attempt.endpoint =
        soFar past t (s.ipChoice + 1) := by
  have hc := h.choice
  rcases h.table with ⟨htable, hn⟩ | ⟨htable, -⟩
  · have hget : t.endpoints[n]? = some e := by
      unfold nextIp at he
      rw [htable, Option.bind_some, hc.targets, List.getElem?_concat_length, Option.bind_some,
        hn] at he
      exact he
    refine ⟨htable, hn, ?_, ?_⟩
    · refine ⟨⟨hc.kept.no_error, hc.kept.order, hc.kept.unanswered, hc.kept.addresses, ?_⟩,
        hc.alive, hc.named, hc.asked, hc.targets, hc.idle, hc.hosts⟩
      intro a ha
      rcases List.mem_append.mp ha with ha | ha
      · exact hc.kept.punctual a ha
      · rw [List.mem_singleton.mp ha]
        exact hc.alive
    · rw [List.map_append, h.attempts, List.map_singleton, hn, soFar, soFar, List.append_assoc,
        List.take_add_one, hget]
      rfl
  · unfold nextIp at he
    rw [htable] at he
    cases he

theorem Ready.between {s : State} {past : List Target} (h : Ready cfg s past t)
    (comp : Ip → Ip → Bool) : Between cfg { s with
      targets := s.targets.modify past.length fun t => { t with ips := Rfc6724.tSort t.ips comp }
      ipChoice := 0 } past { t with ips := Rfc6724.tSort t.ips comp } 0 := by
  have hc := h.choice
  have hperm : (Rfc6724.tSort t.ips comp).Perm t.heard :=
    (ExchangeSort.sort_perm comp t.ips).trans (hc.kept.addresses t (hc.targets ▸ by simp))
  have hreplace :=
    @Choice.replace cfg s past t { t with ips := Rfc6724.tSort t.ips comp } hc rfl hperm
    (some past.length) 0
  rw [hc.targets, Lists.modify_last]
  rw [← h.table] at hreplace
  exact ⟨hreplace, h.attempts, h.live, .inl ⟨h.table, rfl⟩, h.idle⟩

theorem Between.outOfIps {s : State} {past : List Target} {n : ℕ}
    (h : Between cfg s past t n) (hnext : ¬ (nextIp s).isSome) :
    Between cfg { s with ipHosts := none } past t n := by
  have hc := h.choice
  have hn : t.ips.length ≤ n := by
    rcases h.table with ⟨htable, hn⟩ | ⟨-, hn⟩
    · have hnone := Option.not_isSome_iff_eq_none.mp hnext
      unfold nextIp at hnone
      rw [htable, Option.bind_some, hc.targets, List.getElem?_concat_length, Option.bind_some, hn,
        List.getElem?_eq_none_iff, Target.endpoints, List.length_map] at hnone
      exact hnone
    · exact hn
  have hreplace := hc.replace rfl (hc.kept.addresses t (hc.targets ▸ by simp)) none s.ipChoice
  rw [← hc.targets] at hreplace
  exact ⟨hreplace, h.attempts, h.live, .inr ⟨rfl, hn⟩, h.idle⟩

theorem Ready.nothing {s : State} {past : List Target} (h : Ready cfg s past t)
    (hnil : t.ips = []) : Between cfg { s with ipHosts := none } past t 0 := by
  have hc := h.choice
  have hreplace := hc.replace rfl (hc.kept.addresses t (hc.targets ▸ by simp)) none s.ipChoice
  rw [← hc.targets] at hreplace
  exact ⟨hreplace, h.attempts, h.live, .inr ⟨rfl, by rw [hnil]; exact le_rfl⟩, h.idle⟩

theorem Choice.lookup {s : State} {past : List Target} (h : Choice cfg s past t)
    (htable : s.ipHosts = some past.length) (available : Bool) (reply : Option (List String))
    (family : Family) :
    Choice cfg { s with targets := past ++ [(t.lookup available reply family).1] } past
      (t.lookup available reply family).1 := by
  have hperm := Target.lookup_perm available reply family
    (h.kept.addresses t (h.targets ▸ by simp))
  have hreplace := h.replace (Target.place_lookup available reply family) hperm
    (some past.length) s.ipChoice
  rw [← htable] at hreplace
  exact hreplace

theorem lookups_iff : Lookups t ↔
    t.haveOtherResult = !(t.waiting4 && t.waiting6) ∧ (t.waiting4 = true ∨ t.waiting6 = true) :=
  ⟨fun h => ⟨h.other, h.some⟩, fun h => ⟨h.1, h.2⟩⟩

/-- The two lookups for a target that has just been chosen: either nothing has to be waited for,
or the callbacks know of each other what they have to. -/
theorem lookups_fresh {t : Target} (h4 : t.waiting4 = false) (h6 : t.waiting6 = false)
    (hother : t.haveOtherResult = !(cfg.v4 && cfg.v6)) (reply4 reply6 : Option (List String)) :
    let r4 := t.lookup cfg.v4 reply4 .v4
    let r6 := r4.1.lookup cfg.v6 reply6 .v6
    (r4.2 = true → r4.1.Idle) ∧
      (r4.2 = false → (r6.2 = true → r6.1.Idle) ∧ (r6.2 = false → Lookups r6.1)) := by
  have havailable := cfg.available
  obtain ⟨host, port, ips, other, waiting4, waiting6, heard⟩ := t
  obtain rfl : waiting4 = false := h4
  obtain rfl : waiting6 = false := h6
  obtain rfl : other = !(cfg.v4 && cfg.v6) := hother
  cases hv4 : cfg.v4 <;> cases hv6 : cfg.v6
  · rw [hv4, hv6] at havailable
    cases havailable
  all_goals
    cases reply4 <;> cases reply6 <;>
      simp [Target.lookup, Target.answer, Target.setWaiting, Target.Idle, lookups_iff]

variable (env : Env)

mutual

theorem attemptConnection_spec {s : State} {past : List Target} {t : Target} {n : ℕ}
    (h : Between cfg s past t n) : Outcome cfg (attemptConnection cfg env s) := by
  have hc := h.choice
  have hgo : ¬ (s.destroyed = true ∨ cfg.ascii = none) := by
    rintro (hd | hn)
    · rw [hc.alive] at hd
      cases hd
    · exact hc.named hn
  rw [attemptConnection, if_neg hgo]
  by_cases htable : s.ipHosts.isSome
  · rw [if_pos htable]
    exact retryConnect_spec h htable
  · rw [if_neg htable]
    have hnone : s.ipHosts = none := Option.not_isSome_iff_eq_none.mp htable
    have hn : t.ips.length ≤ n := by
      rcases h.table with ⟨hsome, -⟩ | ⟨-, hn⟩
      · rw [hsome] at htable
        exact absurd rfl htable
      · exact hn
    obtain ⟨hosts, hhosts, -⟩ := hc.hosts
    split
    · rename_i hno
      rw [hhosts] at hno
      cases hno
    · rename_i hosts' hyes
      obtain rfl := Option.some.inj (hhosts.symm.trans hyes)
      split
      · rename_i hsrv
        exact .inr ⟨rfl, .inl (h.spent hnone hn hhosts hsrv)⟩
      · rename_i srv hsrv
        have hlt : srvLeft { s with srvChoice := s.srvChoice + 1 } < srvLeft s := by
          obtain ⟨hlt, -⟩ := List.getElem?_eq_some_iff.mp hsrv
          simp only [srvLeft, hhosts, Option.map_some, Option.getD_some]
          omega
        obtain ⟨htrue, hsettled⟩ := tryConnect_spec (h.starting hn hhosts hsrv)
        exact .inl ⟨htrue, hsettled⟩
termination_by (srvLeft s, 0, ipsLeft s, 2)
decreasing_by
  · exact Prod.Lex.right _ (Prod.Lex.right _ (Prod.Lex.right _ (by decide)))
  · exact Prod.Lex.left _ _ (by assumption)

theorem retryConnect_spec {s : State} {past : List Target} {t : Target} {n : ℕ}
    (h : Between cfg s past t n) (htable : s.ipHosts.isSome) :
    Outcome cfg (retryConnect cfg env s) := by
  rw [retryConnect]
  by_cases hnext : (nextIp s).isSome
  · rw [if_pos hnext]
    exact .inl ⟨rfl, tryNextIp_spec h hnext⟩
  · rw [if_neg hnext, if_pos htable]
    rcases attemptConnection_spec (h.outOfIps hnext) with
      ⟨htrue, hsettled⟩ | ⟨hfalse, hspent⟩
    · exact .inl ⟨by rw [if_pos htrue], by rw [if_pos htrue]; exact hsettled⟩
    · have hover : Over cfg (destroy (attemptConnection cfg env { s with ipHosts := none }).2) := by
        rcases hspent with hspent | hover
        · exact hspent.destroy
        · rw [destroy_of_destroyed hover.destroyed]
          exact hover
      have hno : ¬ (attemptConnection cfg env { s with ipHosts := none }).1 = true := by
        rw [hfalse]
        exact Bool.false_ne_true
      exact .inr ⟨by rw [if_neg hno], by rw [if_neg hno]; exact .inr hover⟩
termination_by (srvLeft s, 0, ipsLeft s, 1)
decreasing_by
  · exact Prod.Lex.right _ (Prod.Lex.right _ (Prod.Lex.right _ (by decide)))
  · refine Prod.Lex.right _ (Prod.Lex.right _ (Prod.Lex.left _ _ ?_))
    obtain ⟨k, hk⟩ := Option.isSome_iff_exists.mp htable
    simp only [ipsLeft, hk, Option.map_some, Option.getD_some, Option.map_none, Option.getD_none]
    omega

theorem tryNextIp_spec {s : State} {past : List Target} {t : Target} {n : ℕ}
    (h : Between cfg s past t n) (hnext : (nextIp s).isSome) :
    Settled cfg (tryNextIp cfg env s) := by
  rw [tryNextIp]
  split
  · rename_i hnone
    rw [hnone] at hnext
    cases hnext
  · rename_i e he
    obtain ⟨htable, hn, hchoice, hattempts⟩ := h.attempt he
    have hlt : ipsLeft { s with
        ipChoice := s.ipChoice + 1, attempts := s.attempts ++ [⟨e, s.destroyed⟩] } < ipsLeft s :=
      ipsLeft_lt he rfl rfl rfl
    dsimp only
    split
    · refine .inr (.inl ⟨past, t, ⟨⟨hchoice.kept.no_error, hchoice.kept.order,
        hchoice.kept.unanswered, hchoice.kept.addresses, hchoice.kept.punctual⟩, hchoice.alive,
        hchoice.named, hchoice.asked, hchoice.targets, hchoice.idle, hchoice.hosts⟩, hattempts,
        ⟨s.attempts.length, ?_, ?_⟩, htable, h.idle⟩)
      · change s.live ++ [s.attempts.length] = _
        rw [h.live]
        rfl
      · change s.attempts.length + 1 = (s.attempts ++ [_]).length
        rw [List.length_append, List.length_singleton]
    · exact (attemptConnection_spec ⟨hchoice, hattempts, h.live, .inl ⟨htable, rfl⟩,
        h.idle⟩).orDestroy
termination_by (srvLeft s, 0, ipsLeft s, 0)
decreasing_by
  exact Prod.Lex.right _ (Prod.Lex.right _ (Prod.Lex.left _ _ (by assumption)))

theorem answered_spec {s : State} {past : List Target} {t : Target} (h : Ready cfg s past t) :
    Settled cfg (answered cfg env s past.length) := by
  have hc := h.choice
  have hget : s.targets[past.length]? = some t := by rw [hc.targets, List.getElem?_concat_length]
  rw [answered, hget, Option.map_some, Option.getD_some]
  by_cases hnil : t.ips = []
  · rw [if_neg (not_not.mpr hnil)]
    exact (attemptConnection_spec (h.nothing hnil)).orDestroy
  · rw [if_pos hnil]
    split
    · rename_i hnone
      rw [h.table] at hnone
      cases hnone
    · rename_i j hj
      obtain rfl := Option.some.inj (h.table.symm.trans hj)
      have hb := h.between (env.comp past.length)
      refine tryNextIp_spec hb ?_
      have hpos :
          0 < ({ t with ips := Rfc6724.tSort t.ips (env.comp past.length) } :
            Target).endpoints.length := by
        have hperm : (Rfc6724.tSort t.ips (env.comp past.length)).Perm t.ips :=
          ExchangeSort.sort_perm _ _
        rw [Target.endpoints, List.length_map, hperm.length_eq]
        exact List.length_pos_iff.mpr hnil
      unfold nextIp
      dsimp only
      rw [h.table, Option.bind_some, hc.targets, Lists.modify_last, List.getElem?_concat_length,
        Option.bind_some, List.getElem?_eq_getElem hpos]
      rfl
termination_by (srvLeft s, 1, 0, 0)
decreasing_by
  · exact Prod.Lex.right _ (Prod.Lex.left _ _ (by decide))
  · exact Prod.Lex.right _ (Prod.Lex.left _ _ (by decide))

theorem tryConnect_spec {s : State} {host : String} {port : ℕ} (h : Starting cfg s host port) :
    (tryConnect cfg env s host port).1 = true ∧
      Settled cfg (tryConnect cfg env s host port).2 := by
  have hchoice := @Starting.choice cfg s host port h
    { host, port, haveOtherResult := !(cfg.v4 && cfg.v6) } rfl (.refl _)
  rw [tryConnect, if_neg (by rw [h.alive]; exact Bool.false_ne_true)]
  generalize ht : ({ host, port, haveOtherResult := !(cfg.v4 && cfg.v6) } : Target) = t
    at hchoice ⊢
  have hattempts : s.attempts.map Attempt.endpoint = soFar s.targets t 0 := by
    rw [h.attempts, soFar, List.take_zero, List.append_nil]
  obtain ⟨hnow, hlater⟩ := @lookups_fresh cfg t (by rw [← ht]) (by rw [← ht]) (by rw [← ht])
    (env.reply s.targets.length .v4) (env.reply s.targets.length .v6)
  have hchoice4 := hchoice.lookup rfl cfg.v4 (env.reply s.targets.length .v4) .v4
  have hchoice6 := hchoice4.lookup rfl cfg.v6 (env.reply s.targets.length .v6) .v6
  dsimp only
  rw [lookup_last rfl]
  dsimp only
  by_cases hr4 : (t.lookup cfg.v4 (env.reply s.targets.length .v4) .v4).2 = true
  · rw [if_pos hr4]
    exact ⟨rfl, answered_spec ⟨hchoice4, hattempts, h.live, rfl, hnow hr4⟩⟩
  · rw [if_neg hr4, lookup_last rfl]
    dsimp only
    obtain ⟨hidle, hlookups⟩ := hlater (Bool.eq_false_iff.mpr hr4)
    split
    · rename_i hr6
      exact ⟨rfl, answered_spec ⟨hchoice6, hattempts, h.live, rfl, hidle hr6⟩⟩
    · rename_i hr6
      exact ⟨rfl, .inl ⟨_, _, hchoice6, hattempts, h.live, rfl,
        hlookups (Bool.eq_false_iff.mpr hr6)⟩⟩
termination_by (srvLeft s, 2, 0, 0)
decreasing_by
  · exact Prod.Lex.right _ (Prod.Lex.left _ _ (by decide))
  · exact Prod.Lex.right _ (Prod.Lex.left _ _ (by decide))

end

/-! ## The lookup of the service -/

theorem priority_le {r r' : Srv} (h : compareSrvPriorities r' r = false) :
    r.priority ≤ r'.priority := by
  unfold compareSrvPriorities at h
  rw [Bool.or_eq_false_iff, decide_eq_false_iff_not] at h
  exact Nat.le_of_not_lt h.1

theorem srvAnswered_spec {s : State} (h : Fresh cfg s) (answer : List Srv) :
    Settled cfg (srvAnswered cfg env s answer) := by
  unfold srvAnswered
  generalize hhosts : (if answer.map Srv.target = ["."] then answer else cfg.order.sort answer) =
    hosts
  have hsorted : hosts.Pairwise fun r r' => r.priority ≤ r'.priority := by
    rw [← hhosts]
    split
    · rename_i hdot
      have hlength := congrArg List.length hdot
      rw [List.length_map] at hlength
      obtain ⟨srv, rfl⟩ := List.length_eq_one_iff.mp hlength
      exact List.pairwise_singleton _ _
    · exact (cfg.order.sorted answer).imp priority_le
  have hkept : ∀ n ended, Kept cfg { s with
      srvPending := false, srvHosts := some hosts, srvChoice := n, answer := some hosts
      ended := ended } := by
    intro n ended
    refine ⟨h.no_error, ?_, ?_, ?_, ?_⟩
    · intro hosts' heq
      cases heq
      refine ⟨hsorted, ?_⟩
      change s.targets.map _ <+: _
      rw [h.targets]
      exact List.nil_prefix
    · intro hnone
      cases hnone
    · intro t ht
      change t ∈ s.targets at ht
      rw [h.targets] at ht
      cases ht
    · intro a ha
      change a ∈ s.attempts at ha
      rw [h.attempts] at ha
      cases ha
  have hattempts : s.attempts.map Attempt.endpoint = s.targets.flatMap Target.endpoints := by
    rw [h.attempts, h.targets]
    rfl
  have hidle : ∀ t ∈ s.targets, t.Idle := by
    intro t ht
    rw [h.targets] at ht
    cases ht
  dsimp only
  cases hosts with
  | nil =>
    refine (tryConnect_spec env ⟨hkept 0 s.ended, h.alive, h.named, rfl, hidle, h.live, hattempts,
      [], rfl, rfl, ?_, fun _ => h.targets, fun hne => absurd rfl hne⟩).2
    change (plan cfg [])[s.targets.length]? = _
    rw [h.targets]
    rfl
  | cons srv hosts =>
    dsimp only
    split
    · refine .inr (.inr ?_)
      rw [Connecting.destroy, if_neg (by change ¬ s.destroyed = true; rw [h.alive]; decide)]
      have hkept' := hkept 0 true
      refine ⟨⟨hkept'.no_error, hkept'.order, hkept'.unanswered, hkept'.addresses,
        hkept'.punctual⟩, rfl, ?_, rfl, .inl ⟨h.targets, h.attempts⟩, ?_, .inl rfl⟩
      · intro hpending
        cases hpending
      · intro c hc
        change c ∈ s.live at hc
        rw [h.live] at hc
        cases hc
    · refine (tryConnect_spec env ⟨hkept 1 s.ended, h.alive, h.named, rfl, hidle, h.live,
        hattempts, srv :: hosts, rfl, rfl, ?_, ?_, fun _ => ?_⟩).2
      · change (plan cfg (srv :: hosts))[s.targets.length]? = _
        rw [h.targets]
        rfl
      · intro hnil
        cases hnil
      · change 1 = s.targets.length + 1
        rw [h.targets]
        rfl

/-! ## What is promised holds between two events -/

/-- What holds after every event, while nothing goes wrong. -/
def Inv (cfg : Config) (s : State) : Prop := Asking cfg s ∨ Settled cfg s

theorem Asking.right {s : State} (h : Asking cfg s) : Right cfg s where
  no_error := h.no_error
  order := by
    intro hosts hhosts
    rw [h.answer] at hhosts
    cases hhosts
  unanswered := fun _ => h.targets
  addresses := by
    intro t ht
    rw [h.targets] at ht
    cases ht
  in_turn := .inl ⟨h.targets, h.attempts⟩
  failed := by
    intro c hc
    rw [h.live] at hc
    cases hc
  punctual := by
    intro a ha
    rw [h.attempts] at ha
    cases ha
  busy := fun _ => .inl h.asked
  fate := by
    intro hdestroyed
    rw [h.alive] at hdestroyed
    cases hdestroyed

theorem Choice.right {s : State} {past : List Target} (h : Choice cfg s past t) {n : ℕ}
    (hattempts : s.attempts.map Attempt.endpoint = soFar past t n)
    (hfailed : ∀ c ∈ s.live, c + 1 = s.attempts.length)
    (hbusy : (∃ t ∈ s.targets, ¬ t.Idle) ∨ s.live ≠ []) : Right cfg s where
  no_error := h.kept.no_error
  order := h.kept.order
  unanswered := h.kept.unanswered
  addresses := h.kept.addresses
  in_turn := .inr ⟨past, t, n, h.targets, hattempts⟩
  failed := hfailed
  punctual := h.kept.punctual
  busy := fun _ => .inr hbusy
  fate := by
    intro hdestroyed
    rw [h.alive] at hdestroyed
    cases hdestroyed

theorem Lookups.not_idle (h : Lookups t) : ¬ t.Idle := by
  rintro ⟨h4, h6⟩
  rcases h.some with hwaiting | hwaiting
  · rw [h4] at hwaiting
    cases hwaiting
  · rw [h6] at hwaiting
    cases hwaiting

theorem Waiting.right {s : State} {past : List Target} (h : Waiting cfg s past t) :
    Right cfg s := by
  refine h.choice.right h.attempts ?_ (.inl ⟨t, ?_, h.lookups.not_idle⟩)
  · intro c hc
    rw [h.live] at hc
    cases hc
  · rw [h.choice.targets]
    exact List.mem_append_right _ (List.mem_singleton_self t)

theorem Trying.right {s : State} {past : List Target} (h : Trying cfg s past t) : Right cfg s := by
  obtain ⟨c, hlive, hc⟩ := h.live
  refine h.choice.right h.attempts ?_ (.inr ?_)
  · intro c' hc'
    rw [hlive] at hc'
    rwa [List.mem_singleton.mp hc']
  · rw [hlive]
    exact List.cons_ne_nil _ _

theorem Over.right {s : State} (h : Over cfg s) : Right cfg s where
  no_error := h.kept.no_error
  order := h.kept.order
  unanswered := h.kept.unanswered
  addresses := h.kept.addresses
  in_turn := by
    rcases h.last with hnone | ⟨past, t, n, htargets, -, hattempts, -⟩
    · exact .inl hnone
    · exact .inr ⟨past, t, n, htargets, hattempts⟩
  failed := h.live
  punctual := h.kept.punctual
  busy := by
    intro hdestroyed
    rw [h.destroyed] at hdestroyed
    cases hdestroyed
  fate := fun _ => h.fate

theorem Inv.right {s : State} (h : Inv cfg s) : Right cfg s := by
  rcases h with hasking | ⟨past, t, hwaiting⟩ | ⟨past, t, htrying⟩ | hover
  · exact hasking.right
  · exact hwaiting.right
  · exact htrying.right
  · exact hover.right

/-! ## Destruction from outside -/

theorem Fresh.kept {s : State} (h : Fresh cfg s) : Kept cfg s where
  no_error := h.no_error
  order := by
    intro hosts hhosts
    rw [h.answer] at hhosts
    cases hhosts
  unanswered := fun _ => h.targets
  addresses := by
    intro t ht
    rw [h.targets] at ht
    cases ht
  punctual := by
    intro a ha
    rw [h.attempts] at ha
    cases ha

theorem Kept.over {s : State} (h : Kept cfg s) (halive : s.destroyed = false)
    (hasked : s.srvPending = true → s.answer = none)
    (hlast : s.targets = [] ∧ s.attempts = [] ∨ ∃ past t n, s.targets = past ++ [t] ∧
      (∀ p ∈ past, p.Idle) ∧ s.attempts.map Attempt.endpoint = soFar past t n ∧
      (t.Idle ∨ n = 0))
    (hlive : ∀ c ∈ s.live, c + 1 = s.attempts.length) :
    Over cfg (destroy { s with ended := true }) := by
  rw [destroy, if_neg (by change ¬ s.destroyed = true; rw [halive]; exact Bool.false_ne_true)]
  refine ⟨⟨h.no_error, h.order, h.unanswered, h.addresses, h.punctual⟩, rfl, hasked, rfl, ?_,
    hlive, .inl rfl⟩
  rcases hlast with hnone | ⟨past, t, n, htargets, hidle, hattempts, ht | hn⟩
  · exact .inl hnone
  · exact .inr ⟨past, t, n, htargets, hidle, hattempts, .inl ht⟩
  · exact .inr ⟨past, t, n, htargets, hidle, hattempts, .inr ⟨hn, rfl⟩⟩

theorem Choice.over {s : State} {past : List Target} (h : Choice cfg s past t) {n : ℕ}
    (hattempts : s.attempts.map Attempt.endpoint = soFar past t n) (ht : t.Idle ∨ n = 0)
    (hlive : ∀ c ∈ s.live, c + 1 = s.attempts.length) :
    Over cfg (destroy { s with ended := true }) := by
  refine h.kept.over h.alive ?_ (.inr ⟨past, t, n, h.targets, h.idle, hattempts, ht⟩) hlive
  intro hpending
  rw [h.asked] at hpending
  cases hpending

theorem Over.endedIn {s : State} (h : Over cfg s) {live : List ℕ} (hlive : live ⊆ s.live) :
    Over cfg { s with live := live, ended := true } := by
  refine ⟨⟨h.kept.no_error, h.kept.order, h.kept.unanswered, h.kept.addresses, h.kept.punctual⟩,
    h.destroyed, h.asked, h.table, ?_, fun c hc => h.live c (hlive hc), .inl rfl⟩
  rcases h.last with hnone | ⟨past, t, n, htargets, hidle, hattempts, ht | ⟨hn, -⟩⟩
  · exact .inl hnone
  · exact .inr ⟨past, t, n, htargets, hidle, hattempts, .inl ht⟩
  · exact .inr ⟨past, t, n, htargets, hidle, hattempts, .inr ⟨hn, rfl⟩⟩

theorem Over.again {s : State} (h : Over cfg s) {live : List ℕ} (hlive : live ⊆ s.live) :
    Over cfg (destroy { s with live := live, ended := true }) := by
  rw [destroy_of_destroyed (show State.destroyed { s with live := live, ended := true } = true from
    h.destroyed)]
  exact h.endedIn hlive

theorem Inv.destroy {s : State} (h : Inv cfg s) : Over cfg (destroy { s with ended := true }) := by
  rcases h with hasking | ⟨past, t, hwaiting⟩ | ⟨past, t, htrying⟩ | hover
  · refine hasking.toFresh.kept.over hasking.alive (fun _ => hasking.answer)
      (.inl ⟨hasking.targets, hasking.attempts⟩) ?_
    intro c hc
    rw [hasking.live] at hc
    cases hc
  · refine hwaiting.choice.over hwaiting.attempts (.inr rfl) ?_
    intro c hc
    rw [hwaiting.live] at hc
    cases hc
  · obtain ⟨c, hlive, hc⟩ := htrying.live
    refine htrying.choice.over htrying.attempts (.inl htrying.idle) ?_
    intro c' hc'
    rw [hlive] at hc'
    rwa [List.mem_singleton.mp hc']
  · exact hover.again (List.Subset.refl _)

/-! ## The events -/

/-- A lookup that completes after the session is destroyed brings nothing to try. -/
def Timely (s : State) : Event → Prop
  | .srv answer _ => s.srvPending = true → s.destroyed = true → answer.map Srv.target = ["."]
  | .address k family reply _ => s.destroyed = true → ∀ t, s.targets[k]? = some t →
      t.waiting family = true → t.haveOtherResult = true → t.ips = [] ∧ reply = []
  | _ => True

theorem Target.Idle.not_waiting (h : t.Idle) (family : Family) : t.waiting family = false := by
  cases family
  · exact h.1
  · exact h.2

variable {family : Family}

/-- Only the last target may be waited for. -/
theorem eq_last_of_waiting {targets past : List Target} {t' : Target} {k : ℕ}
    (htargets : targets = past ++ [t]) (hidle : ∀ p ∈ past, p.Idle)
    (hget : targets[k]? = some t') (hwaiting : t'.waiting family = true) :
    k = past.length ∧ t' = t := by
  rw [htargets] at hget
  rcases lt_trichotomy k past.length with hlt | rfl | hgt
  · rw [List.getElem?_append_left hlt] at hget
    have hno := (hidle t' (List.mem_of_getElem? hget)).not_waiting family
    rw [hwaiting] at hno
    cases hno
  · rw [List.getElem?_concat_length] at hget
    exact ⟨rfl, (Option.some.inj hget).symm⟩
  · rw [List.getElem?_eq_none_iff.mpr (by
      rw [List.length_append, List.length_singleton]
      exact hgt)] at hget
    cases hget

/-- The second answer leaves nothing to wait for, the first one the other lookup. -/
theorem Lookups.answer (h : Lookups t) (hwaiting : t.waiting family = true) (reply : List String) :
    (t.haveOtherResult = true → (t.answer family reply).Idle) ∧
      (t.haveOtherResult = false → Lookups (t.answer family reply)) := by
  obtain ⟨host, port, ips, other, waiting4, waiting6, heard⟩ := t
  obtain rfl : other = !(waiting4 && waiting6) := h.other
  cases family
  · obtain rfl : waiting4 = true := hwaiting
    cases waiting6 <;>
      simp [Target.answer, Target.setWaiting, Target.Idle, lookups_iff]
  · obtain rfl : waiting6 = true := hwaiting
    cases waiting4 <;>
      simp [Target.answer, Target.setWaiting, Target.Idle, lookups_iff]

theorem Waiting.address {s : State} {past : List Target} (h : Waiting cfg s past t)
    (hwaiting : t.waiting family = true) (reply : List String) :
    let r := record s past.length family reply
    Settled cfg (if r.2 then answered cfg env r.1 past.length else r.1) := by
  have hc := h.choice
  have hchoice := hc.replace (Target.place_answer family reply)
    (Target.answer_perm family reply (hc.kept.addresses t (hc.targets ▸ by simp)))
    (some past.length) s.ipChoice
  rw [← h.table] at hchoice
  obtain ⟨hidle, hlookups⟩ := h.lookups.answer hwaiting reply
  rw [record_last hc.targets]
  dsimp only
  split
  · rename_i hother
    exact answered_spec env ⟨hchoice, h.attempts, h.live, h.table, hidle hother⟩
  · rename_i hother
    exact .inl ⟨past, _, hchoice, h.attempts, h.live, h.table,
      hlookups (Bool.eq_false_iff.mpr hother)⟩

theorem Over.record {s : State} (h : Over cfg s) {past : List Target}
    (htargets : s.targets = past ++ [t]) (hidle : ∀ p ∈ past, p.Idle)
    (hattempts : s.attempts.map Attempt.endpoint = soFar past t 0) (hended : s.ended = true)
    (family : Family) (reply : List String) :
    Over cfg { s with targets := past ++ [t.answer family reply] } := by
  refine ⟨⟨h.kept.no_error, ?_, ?_, ?_, h.kept.punctual⟩, h.destroyed, h.asked, h.table,
    .inr ⟨past, _, 0, rfl, hidle, hattempts, .inr ⟨rfl, hended⟩⟩, h.live, .inl hended⟩
  · intro hosts hhosts
    change _ ∧ (past ++ [_]).map Target.place <+: _
    rw [List.map_append, List.map_singleton, Target.place_answer, ← List.map_singleton,
      ← List.map_append, ← htargets]
    exact h.kept.order hosts hhosts
  · intro hnone
    have hempty := h.kept.unanswered hnone
    rw [htargets] at hempty
    cases past <;> cases hempty
  · intro p hp
    rcases List.mem_append.mp hp with hp | hp
    · exact h.kept.addresses p (htargets ▸ List.mem_append_left _ hp)
    · rw [List.mem_singleton.mp hp]
      exact Target.answer_perm family reply (h.kept.addresses t (htargets ▸ by simp))

theorem Over.attemptConnection {s : State} (h : Over cfg s) :
    orDestroy (attemptConnection cfg env s) = s := by
  rw [Connecting.attemptConnection, if_pos (.inl h.destroyed), orDestroy,
    if_neg Bool.false_ne_true]
  exact destroy_of_destroyed h.destroyed

theorem Over.address {s : State} (h : Over cfg s) {k : ℕ}
    (hget : s.targets[k]? = some t) (hwaiting : t.waiting family = true)
    {reply : List String} (htimely : t.haveOtherResult = true → t.ips = [] ∧ reply = []) :
    let r := Connecting.record s k family reply
    Over cfg (if r.2 then answered cfg env r.1 k else r.1) := by
  rcases h.last with ⟨hnone, -⟩ | ⟨past, t', n, htargets, hidle, hattempts, hrest⟩
  · rw [hnone] at hget
    cases hget
  · obtain ⟨rfl, rfl⟩ := eq_last_of_waiting htargets hidle hget hwaiting
    rcases hrest with ht | ⟨rfl, hended⟩
    · rw [ht.not_waiting family] at hwaiting
      cases hwaiting
    · have hover := h.record htargets hidle hattempts hended family reply
      rw [record_last htargets]
      dsimp only
      split
      · rename_i hother
        obtain ⟨hips, rfl⟩ := htimely hother
        have hnil : (t.answer family []).ips = [] := by
          cases family <;> exact (List.append_nil _).trans hips
        rw [answered, if_neg (by
          rw [List.getElem?_concat_length, Option.map_some, Option.getD_some, hnil]
          exact not_not.mpr rfl)]
        rw [h.table] at hover
        rw [hover.attemptConnection]
        exact hover
      · exact hover

theorem Choice.live {s : State} {past : List Target} (h : Choice cfg s past t)
    (live : List ℕ) : Choice cfg { s with live := live } past t :=
  ⟨⟨h.kept.no_error, h.kept.order, h.kept.unanswered, h.kept.addresses, h.kept.punctual⟩, h.alive,
    h.named, h.asked, h.targets, h.idle, h.hosts⟩

theorem Trying.disconnected {s : State} {past : List Target} (h : Trying cfg s past t)
    {conn : ℕ} (hconn : conn ∈ s.live) :
    Settled cfg (orDestroy (attemptConnection cfg env { s with live := s.live.erase conn })) := by
  have hc := h.choice
  obtain ⟨c, hlive, -⟩ := h.live
  have herase : s.live.erase conn = [] := by
    rw [hlive] at hconn ⊢
    rw [List.mem_singleton.mp hconn, List.erase_cons_head]
  have hbetween : Between cfg { s with live := s.live.erase conn } past t s.ipChoice :=
    ⟨hc.live _, h.attempts, herase, .inl ⟨h.table, rfl⟩, h.idle⟩
  exact (attemptConnection_spec env hbetween).orDestroy

theorem Over.srvAnswered {s : State} (h : Over cfg s) (hpending : s.srvPending = true)
    {answer : List Srv} (hdot : answer.map Srv.target = ["."]) :
    Over cfg (srvAnswered cfg env s answer) := by
  have htargets := h.kept.unanswered (h.asked hpending)
  have hlength := congrArg List.length hdot
  rw [List.length_map] at hlength
  obtain ⟨srv, rfl⟩ := List.length_eq_one_iff.mp hlength
  unfold Connecting.srvAnswered
  rw [if_pos hdot]
  dsimp only
  rw [if_pos hdot, Connecting.destroy, if_pos h.destroyed]
  have hnone : s.targets = [] ∧ s.attempts = [] := by
    rcases h.last with hnone | ⟨past, t, n, hlast, -⟩
    · exact hnone
    · rw [htargets] at hlast
      cases past <;> cases hlast
  refine ⟨⟨h.kept.no_error, ?_, ?_, h.kept.addresses, h.kept.punctual⟩, h.destroyed, ?_, h.table,
    .inl hnone, h.live, .inl rfl⟩
  · intro hosts heq
    cases heq
    refine ⟨List.pairwise_singleton _ _, ?_⟩
    change s.targets.map _ <+: _
    rw [htargets]
    exact List.nil_prefix
  · intro hno
    cases hno
  · intro hno
    cases hno

theorem Inv.over {s : State} (h : Inv cfg s) (hdestroyed : s.destroyed = true) : Over cfg s := by
  rcases h with hasking | ⟨past, t, hwaiting⟩ | ⟨past, t, htrying⟩ | hover
  · rw [hasking.alive] at hdestroyed
    cases hdestroyed
  · rw [hwaiting.choice.alive] at hdestroyed
    cases hdestroyed
  · rw [htrying.choice.alive] at hdestroyed
    cases hdestroyed
  · exact hover

theorem Choice.notopen {s : State} {past : List Target} (h : Choice cfg s past t)
    (b : Bool) : Choice cfg { s with notopen := b } past t :=
  ⟨⟨h.kept.no_error, h.kept.order, h.kept.unanswered, h.kept.addresses, h.kept.punctual⟩, h.alive,
    h.named, h.asked, h.targets, h.idle, h.hosts⟩

theorem Inv.notopen {s : State} (h : Inv cfg s) (halive : ¬ s.destroyed = true) (b : Bool) :
    Inv cfg { s with notopen := b } := by
  rcases h with hasking | ⟨past, t, hwaiting⟩ | ⟨past, t, htrying⟩ | hover
  · exact .inl ⟨⟨hasking.no_error, hasking.alive, hasking.named, hasking.answer, hasking.targets,
      hasking.attempts, hasking.live⟩, hasking.asked⟩
  · exact .inr (.inl ⟨past, t, hwaiting.choice.notopen b, hwaiting.attempts, hwaiting.live,
      hwaiting.table, hwaiting.lookups⟩)
  · exact .inr (.inr (.inl ⟨past, t, htrying.choice.notopen b, htrying.attempts, htrying.live,
      htrying.table, htrying.idle⟩))
  · exact absurd hover.destroyed halive

theorem Inv.srv {s : State} (h : Inv cfg s) (hpending : s.srvPending = true) {answer : List Srv}
    (htimely : s.destroyed = true → answer.map Srv.target = ["."]) :
    Inv cfg (srvAnswered cfg env s answer) := by
  rcases h with hasking | ⟨past, t, hwaiting⟩ | ⟨past, t, htrying⟩ | hover
  · exact .inr (srvAnswered_spec env hasking.toFresh answer)
  · rw [hwaiting.choice.asked] at hpending
    cases hpending
  · rw [htrying.choice.asked] at hpending
    cases hpending
  · exact .inr (.inr (.inr (hover.srvAnswered env hpending (htimely hover.destroyed))))

theorem Inv.address {s : State} (h : Inv cfg s) {k : ℕ}
    (hget : s.targets[k]? = some t) (hwaits : t.waiting family = true) {reply : List String}
    (htimely : s.destroyed = true → t.haveOtherResult = true → t.ips = [] ∧ reply = []) :
    let r := record s k family reply
    Inv cfg (if r.2 then answered cfg env r.1 k else r.1) := by
  rcases h with hasking | ⟨past, t', hwaiting⟩ | ⟨past, t', htrying⟩ | hover
  · rw [hasking.targets] at hget
    cases hget
  · have hc := hwaiting.choice
    obtain ⟨rfl, rfl⟩ := eq_last_of_waiting hc.targets hc.idle hget hwaits
    exact .inr (hwaiting.address env hwaits reply)
  · have hc := htrying.choice
    obtain ⟨rfl, rfl⟩ := eq_last_of_waiting hc.targets hc.idle hget hwaits
    rw [htrying.idle.not_waiting family] at hwaits
    cases hwaits
  · exact .inr (.inr (.inr (hover.address env hget hwaits (htimely hover.destroyed))))

theorem Inv.disconnected {s : State} (h : Inv cfg s) {conn : ℕ} (hconn : conn ∈ s.live)
    (err : Bool) :
    let s' := { s with live := s.live.erase conn }
    Inv cfg (if err && !s.destroyed && s.notopen then orDestroy (attemptConnection cfg env s')
      else Connecting.destroy { s' with ended := true }) := by
  rcases h with hasking | ⟨past, t, hwaiting⟩ | ⟨past, t, htrying⟩ | hover
  · rw [hasking.live] at hconn
    cases hconn
  · rw [hwaiting.live] at hconn
    cases hconn
  · dsimp only
    split
    · exact .inr (htrying.disconnected env hconn)
    · refine .inr (.inr (.inr ((htrying.choice.live (s.live.erase conn)).over htrying.attempts
        (.inl htrying.idle) ?_)))
      intro c hc
      exact htrying.right.failed c (List.mem_of_mem_erase hc)
  · dsimp only
    rw [if_neg (by
      rw [hover.destroyed, Bool.not_true, Bool.and_false]
      exact Bool.false_ne_true)]
    exact .inr (.inr (.inr (hover.again List.erase_subset)))

theorem step_inv {s : State} (h : Inv cfg s) {e : Event} (htimely : Timely s e) :
    Inv cfg (step cfg s e) := by
  cases e with
  | srv answer env =>
    rw [step]
    split
    · rename_i hpending
      exact h.srv env hpending (htimely hpending)
    · exact h
  | address k family reply env =>
    rw [step]
    cases hget : s.targets[k]? with
    | none => exact h
    | some t =>
      rw [Option.map_some, Option.getD_some]
      split
      · rename_i hwaits
        exact h.address env hget hwaits fun hdestroyed => htimely hdestroyed t hget hwaits
      · exact h
  | disconnected conn err env =>
    rw [step]
    split
    · rename_i hconn
      exact h.disconnected env hconn err
    · exact h
  | stream notopen =>
    rw [step]
    split
    · exact h
    · rename_i halive
      exact h.notopen halive notopen
  | destroy => exact .inr (.inr (.inr h.destroy))

end

/-- What `table.sort` does if it keeps records that are equal in their order. -/
def stable : SrvOrder where
  sort := fun records => records.mergeSort fun r r' => !compareSrvPriorities r' r
  perm := fun records => List.mergeSort_perm records _
  sorted := by
    intro records
    have htrans : ∀ a b c : Srv, (!compareSrvPriorities b a) = true →
        (!compareSrvPriorities c b) = true → (!compareSrvPriorities c a) = true := by
      simp only [compareSrvPriorities, Bool.not_eq_true', Bool.or_eq_false_iff,
        Bool.and_eq_false_iff, decide_eq_false_iff_not, beq_eq_false_iff_ne]
      omega
    have htotal : ∀ a b : Srv,
        (!compareSrvPriorities b a || !compareSrvPriorities a b) = true := by
      simp only [compareSrvPriorities, Bool.or_eq_true, Bool.not_eq_true', Bool.or_eq_false_iff,
        Bool.and_eq_false_iff, decide_eq_false_iff_not, beq_eq_false_iff_ne]
      omega
    refine (List.pairwise_mergeSort htrans htotal records).imp ?_
    intro r r' h
    rwa [Bool.not_eq_true'] at h

/-- Nothing is answered at once, and no connection succeeds. -/
def slow : Env where
  srv := none
  reply := fun _ _ => none
  comp := fun _ _ _ => false
  connects := fun _ => false

end Prosody.S2s.Connecting
