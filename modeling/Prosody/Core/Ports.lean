import Mathlib.Data.String.Basic
import Prosody.Core.Portmanager
import Prosody.Library.Runs

/-! # The registry of ports

As long as ports are only closed that are open, and no port that is configured as a string is in the
way of another, no call raises an error and the registry has exactly the ports that are open. -/

namespace Prosody.Portmanager

/-! ## What is needed of a call -/

/-- No port of the service that is configured as a string is open, or configured in another way as
well. -/
def Plain (cfg : Config) (isOpen : String → ℕ → Prop) (name : String) (info : ServiceInfo) : Prop :=
  ∀ interface ∈ bindInterfaces cfg name info, ∀ s n, .text s ∈ bindPorts cfg name info →
    cfg.tonumber s = some n → ¬ isOpen interface n ∧
      ∀ port ∈ bindPorts cfg name info, port.tonumber cfg = some n → port = .text s

namespace Manager

/-- A port is open, for a service of which something holds. -/
def Open (m : Manager) (P : ServiceInfo → Prop) (interface : String) (port : ℕ) : Prop :=
  ∃ name entries, m.active.find name interface port = some entries ∧ ∃ a ∈ entries, P a.service

/-- The condition on a call: services are registered under their names, the next service in the list
is not the one that is unregistered, and a port that is closed is open. -/
def Sound (cfg : Config) (m : Manager) (i : Input) : Prop :=
  match i.op with
  | .registerService name info => info.name = name ∧
      (Table.get m.active name = none → ∀ first, (m.services name ++ [info]).head? = some first →
        Plain cfg (m.Open fun _ => True) name first)
  | .unregisterService name info =>
    ∀ first, (removeEach info (m.services name)).head? = some first →
      first ≠ info ∧ Plain cfg (m.Open fun service => service ≠ info) name first
  | .activate name => ∀ first, (m.services name).head? = some first →
      Plain cfg (m.Open fun _ => True) name first
  | .deactivate name info => name ≠ none ∨ info ≠ none
  | .close interface port => m.Open (fun _ => True) interface port

/-- The registry has at most one entry for an interface and a port, and exactly the handles that have
been opened and not been closed. -/
structure Accurate (m : Manager) : Prop where
  single : ∀ name interface port entries, m.active.find name interface port = some entries →
    ∃ a, entries = [a]
  unique : ∀ name name' interface port entries entries',
    m.active.find name interface port = some entries →
    m.active.find name' interface port = some entries' → name = name'
  handles : ∀ h, (∃ name interface port a, m.active.find name interface port = some [a] ∧
    a.server = h) ↔ h < m.opened ∧ h ∉ m.closed

/-! ## The invariant -/

structure Inv (m : Manager) : Prop extends Accurate m where
  pruned : m.active.Pruned
  named : ∀ name interface port a, m.active.find name interface port = some [a] →
    a.service.name = name
  registered : ∀ name, ∀ info ∈ m.services name, info.name = name
  distinct : ∀ name interface port a name' interface' port' a',
    m.active.find name interface port = some [a] → m.active.find name' interface' port' = some [a'] →
    a.server = a'.server → name = name' ∧ interface = interface' ∧ port = port'
  closed : ∀ h ∈ m.closed, h < m.opened

theorem new_inv : new.Inv where
  single name interface port entries h := by simp [new] at h
  unique name name' interface port entries entries' h := by simp [new] at h
  handles h := by simp [new]
  pruned := Multitable.Pruned.empty
  named name interface port a h := by simp [new] at h
  registered name info h := by simp [new] at h
  distinct name interface port a name' interface' port' a' h := by simp [new] at h
  closed h hmem := by simp [new] at hmem

variable {cfg : Config} {env : Env} {m : Manager}

variable {a : Active}

theorem Inv.server_lt (h : m.Inv) {name interface : String} {port : ℕ}
    (hfind : m.active.find name interface port = some [a]) : a.server < m.opened :=
  ((h.handles a.server).mp ⟨name, interface, port, a, hfind, rfl⟩).1

theorem Inv.server_notMem (h : m.Inv) {name interface : String} {port : ℕ}
    (hfind : m.active.find name interface port = some [a]) : a.server ∉ m.closed :=
  ((h.handles a.server).mp ⟨name, interface, port, a, hfind, rfl⟩).2

/-! ## Opening -/

variable {name interface : String} {port : ℕ} {info : ServiceInfo}

theorem find_addActive (hfree : m.active.find name interface port = none) (info : ServiceInfo)
    (name' interface' : String) (port' : ℕ) :
    (m.addActive name info interface port).active.find name' interface' port' =
      if name' = name ∧ interface' = interface ∧ port' = port then some [⟨m.opened, info⟩]
      else m.active.find name' interface' port' := by
  unfold addActive
  rw [Multitable.find_put, hfree]
  rfl

variable {entries : List Active}

theorem of_find_addActive (hfree : m.active.find name interface port = none)
    {name' interface' : String} {port' : ℕ}
    (h : (m.addActive name info interface port).active.find name' interface' port' = some entries) :
    (name' = name ∧ interface' = interface ∧ port' = port ∧ entries = [⟨m.opened, info⟩]) ∨
      m.active.find name' interface' port' = some entries := by
  rw [find_addActive hfree] at h
  split at h
  · rename_i heq
    exact .inl ⟨heq.1, heq.2.1, heq.2.2, (Option.some.inj h).symm⟩
  · exact .inr h

theorem addActive_inv (h : m.Inv) (hfree : ∀ name', m.active.find name' interface port = none)
    (hname : info.name = name) : (m.addActive name info interface port).Inv where
  single name' interface' port' entries hfind := by
    rcases of_find_addActive (hfree name) hfind with ⟨-, -, -, rfl⟩ | hold
    · exact ⟨_, rfl⟩
    · exact h.single _ _ _ _ hold
  unique name₁ name₂ interface' port' entries₁ entries₂ h₁ h₂ := by
    rcases of_find_addActive (hfree name) h₁ with ⟨rfl, rfl, rfl, -⟩ | hold₁
    · rcases of_find_addActive (hfree _) h₂ with ⟨rfl, -⟩ | hold₂
      · rfl
      · rw [hfree] at hold₂
        cases hold₂
    · rcases of_find_addActive (hfree name) h₂ with ⟨rfl, rfl, rfl, -⟩ | hold₂
      · rw [hfree] at hold₁
        cases hold₁
      · exact h.unique _ _ _ _ _ _ hold₁ hold₂
  handles handle := by
    have hcount : (m.addActive name info interface port).opened = m.opened + 1 := rfl
    have hclosed : (m.addActive name info interface port).closed = m.closed := rfl
    rw [hcount, hclosed]
    constructor
    · rintro ⟨name', interface', port', a, hfind, rfl⟩
      rcases of_find_addActive (hfree name) hfind with ⟨-, -, -, heq⟩ | hold
      · obtain rfl := (List.cons.inj heq).1
        exact ⟨Nat.lt_succ_self _, fun hmem => Nat.lt_irrefl _ (h.closed _ hmem)⟩
      · exact ⟨Nat.lt_succ_of_lt (h.server_lt hold), h.server_notMem hold⟩
    · rintro ⟨hlt, hnot⟩
      rcases Nat.lt_succ_iff_lt_or_eq.mp hlt with hlt | rfl
      · obtain ⟨name', interface', port', a, hfind, rfl⟩ := (h.handles handle).mpr ⟨hlt, hnot⟩
        refine ⟨name', interface', port', a, ?_, rfl⟩
        rw [find_addActive (hfree name), if_neg]
        · exact hfind
        · rintro ⟨-, rfl, rfl⟩
          rw [hfree] at hfind
          cases hfind
      · refine ⟨name, interface, port, ⟨m.opened, info⟩, ?_, rfl⟩
        rw [find_addActive (hfree name), if_pos ⟨rfl, rfl, rfl⟩]
  pruned := h.pruned.put _ _ _ _
  named name' interface' port' a hfind := by
    rcases of_find_addActive (hfree name) hfind with ⟨rfl, -, -, heq⟩ | hold
    · obtain rfl := (List.cons.inj heq).1
      exact hname
    · exact h.named _ _ _ _ hold
  registered := h.registered
  distinct name₁ interface₁ port₁ a₁ name₂ interface₂ port₂ a₂ h₁ h₂ hsame := by
    rcases of_find_addActive (hfree name) h₁ with ⟨rfl, rfl, rfl, heq₁⟩ | hold₁
    · rcases of_find_addActive (hfree _) h₂ with ⟨rfl, rfl, rfl, -⟩ | hold₂
      · exact ⟨rfl, rfl, rfl⟩
      · obtain rfl := (List.cons.inj heq₁).1
        have hlt := h.server_lt hold₂
        rw [← hsame] at hlt
        exact absurd hlt (Nat.lt_irrefl _)
    · rcases of_find_addActive (hfree name) h₂ with ⟨rfl, rfl, rfl, heq₂⟩ | hold₂
      · obtain rfl := (List.cons.inj heq₂).1
        have hlt := h.server_lt hold₁
        rw [hsame] at hlt
        exact absurd hlt (Nat.lt_irrefl _)
      · exact h.distinct _ _ _ _ _ _ _ _ hold₁ hold₂ hsame
  closed handle hmem := Nat.lt_succ_of_lt (h.closed handle hmem)

/-! ## Closing -/

theorem close_spec (h : m.Inv) (env : Env) (hfind : m.active.find name interface port = some [a]) :
    m.close env interface port = ({ m with
      active := m.active.remove name interface port
      closed := m.closed ++ [a.server] }, false) := by
  have hget : m.getServiceAt env interface port = some a := by
    unfold getServiceAt
    have hmem := (Multitable.mem_search env.services interface port [a]).mpr ⟨name, hfind⟩
    cases hsearch : m.active.search env.services interface port with
    | nil =>
      rw [hsearch] at hmem
      cases hmem
    | cons entries rest =>
      obtain ⟨name', hfind'⟩ := (Multitable.mem_search env.services interface port entries).mp
        (by rw [hsearch]; exact List.mem_cons_self)
      obtain rfl := h.unique _ _ _ _ _ _ hfind hfind'
      rw [hfind] at hfind'
      obtain rfl := Option.some.inj hfind'
      rfl
  unfold close
  rw [hget]
  simp only [h.named _ _ _ _ hfind]

theorem of_find_remove {name' interface' : String} {port' : ℕ}
    (h : (m.active.remove name interface port).find name' interface' port' = some entries) :
    ¬ (name' = name ∧ interface' = interface ∧ port' = port) ∧
      m.active.find name' interface' port' = some entries := by
  rw [Multitable.find_remove] at h
  split at h
  · cases h
  · rename_i hne
    exact ⟨hne, h⟩

theorem closed_inv (h : m.Inv) (hfind : m.active.find name interface port = some [a]) : Inv { m with
      active := m.active.remove name interface port
      closed := m.closed ++ [a.server] } where
  single name' interface' port' entries hfind' := h.single _ _ _ _ (of_find_remove hfind').2
  unique name₁ name₂ interface' port' entries₁ entries₂ h₁ h₂ :=
    h.unique _ _ _ _ _ _ (of_find_remove h₁).2 (of_find_remove h₂).2
  handles handle := by
    constructor
    · rintro ⟨name', interface', port', a', hfind', rfl⟩
      obtain ⟨hne, hold⟩ := of_find_remove hfind'
      refine ⟨h.server_lt hold, fun hmem => ?_⟩
      rcases List.mem_append.mp hmem with hmem | hmem
      · exact h.server_notMem hold hmem
      · exact hne (h.distinct _ _ _ _ _ _ _ _ hold hfind (List.mem_singleton.mp hmem))
    · rintro ⟨hlt, hnot⟩
      have hnot' : handle ∉ m.closed := fun hmem => hnot (List.mem_append_left _ hmem)
      obtain ⟨name', interface', port', a', hfind', rfl⟩ := (h.handles handle).mpr ⟨hlt, hnot'⟩
      refine ⟨name', interface', port', a', ?_, rfl⟩
      simp only
      rw [Multitable.find_remove, if_neg]
      · exact hfind'
      · rintro ⟨rfl, rfl, rfl⟩
        rw [hfind] at hfind'
        obtain rfl := (List.cons.inj (Option.some.inj hfind')).1
        exact hnot (List.mem_append_right _ (List.mem_singleton.mpr rfl))
  pruned := h.pruned.remove _ _ _
  named name' interface' port' a' hfind' := h.named _ _ _ _ (of_find_remove hfind').2
  registered := h.registered
  distinct name₁ interface₁ port₁ a₁ name₂ interface₂ port₂ a₂ h₁ h₂ :=
    h.distinct _ _ _ _ _ _ _ _ (of_find_remove h₁).2 (of_find_remove h₂).2
  closed handle hmem := by
    rcases List.mem_append.mp hmem with hmem | hmem
    · exact h.closed handle hmem
    · rw [List.mem_singleton.mp hmem]
      exact h.server_lt hfind

/-! ## Loops -/

theorem each_singleton {σ α : Type} (f : σ → α → σ × Bool) (a : α) (s : σ) :
    each f [a] s = f s a := by
  simp only [each]
  split
  · rfl
  · rename_i hok
    rw [Bool.not_eq_true] at hok
    exact Prod.ext rfl hok.symm

/-- What every round keeps, given the rounds before, holds after a loop that no error ends. -/
theorem each_history {σ α : Type} (f : σ → α → σ × Bool) (P : List α → σ → Prop)
    (as done : List α) (s : σ) (h : P done s)
    (hstep : ∀ before a rest t, as = before ++ a :: rest → P (done ++ before) t →
      P (done ++ before ++ [a]) (f t a).1 ∧ (f t a).2 = false) :
    P (done ++ as) (each f as s).1 ∧ (each f as s).2 = false := by
  induction as generalizing done s with
  | nil =>
    rw [List.append_nil]
    exact ⟨h, rfl⟩
  | cons a as ih =>
    obtain ⟨hfirst, hok⟩ := hstep [] a as s rfl (by rwa [List.append_nil])
    rw [List.append_nil] at hfirst
    have hrest := ih (done ++ [a]) _ hfirst fun before a' rest t heq ht => by
      have hlater := hstep (a :: before) a' rest t (by rw [heq]; rfl) (by
        rw [List.append_assoc] at ht
        exact ht)
      simpa [List.append_assoc] using hlater
    have hcons : each f (a :: as) s = each f as (f s a).1 := by
      rw [each, if_neg (by simp [hok])]
    rw [hcons, ← List.singleton_append, ← List.append_assoc]
    exact hrest

/-! ## Calls -/

/-- What has been opened for a service besides what was there. -/
structure Activated (cfg : Config) (before m : Manager) (info : ServiceInfo)
    (done : List (String × PortValue)) : Prop where
  inv : m.Inv
  services : m.services = before.services
  entries : ∀ name interface port entries, m.active.find name interface port = some entries →
    before.active.find name interface port = some entries ∨
      (∀ a ∈ entries, a.service = info) ∧
        ∃ value, (interface, value) ∈ done ∧ value.tonumber cfg = some port

theorem search_eq_nil (env : Env) (interface : String) (port : ℕ) :
    m.active.search env.services interface port = [] ↔
      ∀ name, m.active.find name interface port = none := by
  rw [List.eq_nil_iff_forall_not_mem]
  constructor
  · intro h name
    by_contra hne
    obtain ⟨entries, hentries⟩ := Option.ne_none_iff_exists'.mp hne
    exact h entries ((Multitable.mem_search _ _ _ _).mpr ⟨name, hentries⟩)
  · intro h entries hmem
    obtain ⟨name, hname⟩ := (Multitable.mem_search _ _ _ _).mp hmem
    rw [h name] at hname
    cases hname

theorem activatePort_spec {before : Manager} {done : List (String × PortValue)}
    {interface : String} {value : PortValue} (h : Activated cfg before m info done)
    (hname : info.name = name)
    (hplain : ∀ s n, value = .text s → cfg.tonumber s = some n →
      ¬ before.Open (fun _ => True) interface n ∧
        ∀ other, (interface, other) ∈ done → other.tonumber cfg ≠ some n) :
    Activated cfg before (m.activatePort cfg env name info interface value).1 info
        (done ++ [(interface, value)]) ∧
      (m.activatePort cfg env name info interface value).2 = false := by
  have hsame : Activated cfg before m info (done ++ [(interface, value)]) := by
    refine ⟨h.inv, h.services, fun name' interface' port' entries hfind => ?_⟩
    refine (h.entries _ _ _ _ hfind).imp_right fun hnew => ⟨hnew.1, ?_⟩
    obtain ⟨other, hmem, hother⟩ := hnew.2
    exact ⟨other, List.mem_append_left _ hmem, hother⟩
  unfold activatePort
  cases hnumber : value.tonumber cfg with
  | none => exact ⟨hsame, rfl⟩
  | some n =>
    simp only
    by_cases hfree : m.active.search env.services interface n = []
    · rw [if_neg (by simp [hfree])]
      have hnone := (search_eq_nil env interface n).mp hfree
      split
      · exact ⟨hsame, rfl⟩
      · split
        · refine ⟨⟨addActive_inv h.inv hnone hname, h.services, ?_⟩, rfl⟩
          intro name' interface' port' entries hfind
          rcases of_find_addActive (hnone name) hfind with ⟨-, rfl, rfl, rfl⟩ | hold
          · refine .inr ⟨fun a ha => ?_, value, by simp, hnumber⟩
            rw [List.mem_singleton.mp ha]
          · exact hsame.entries _ _ _ _ hold
        · exact ⟨hsame, rfl⟩
    · rw [if_pos hfree]
      cases value with
      | number k => exact ⟨hsame, rfl⟩
      | text s =>
        exfalso
        obtain ⟨hclosed, hother⟩ := hplain s n rfl hnumber
        refine hfree ((search_eq_nil env interface n).mpr fun name' => ?_)
        by_contra hne
        obtain ⟨entries, hentries⟩ := Option.ne_none_iff_exists'.mp hne
        rcases h.entries _ _ _ _ hentries with hold | ⟨-, other, hmem, hnum⟩
        · obtain ⟨a, rfl⟩ := h.inv.single _ _ _ _ hentries
          exact hclosed ⟨name', [a], hold, a, List.mem_singleton.mpr rfl, trivial⟩
        · exact hother other hmem hnum

theorem bindings_nodup (cfg : Config) (env : Env) (name : String) (info : ServiceInfo) :
    (bindings cfg env name info).Nodup := by
  unfold bindings
  rw [List.nodup_flatMap]
  constructor
  · intro interface _
    exact (env.portSet.nodup _).map fun a b hab => (Prod.mk.inj hab).2
  · refine (env.interfaceSet.nodup _).imp fun {i j} hij => ?_
    rw [Function.onFun, List.disjoint_left]
    intro binding hi hj
    obtain ⟨value, -, rfl⟩ := List.mem_map.mp hi
    obtain ⟨value', -, heq⟩ := List.mem_map.mp hj
    exact hij (Prod.mk.inj heq).1.symm

theorem mem_bindings {binding : String × PortValue} :
    binding ∈ bindings cfg env name info ↔
      binding.1 ∈ bindInterfaces cfg name info ∧ binding.2 ∈ bindPorts cfg name info := by
  obtain ⟨interface, value⟩ := binding
  simp [bindings, Enumeration.mem_items, List.mem_flatMap]

theorem activate_spec (cfg : Config) (env : Env) (name : String) (h : m.Inv)
    (hplain : ∀ first, (m.services name).head? = some first →
      Plain cfg (m.Open fun _ => True) name first) :
    (m.activate cfg env name).2 = false ∧ (m.activate cfg env name).1.Inv ∧
      ∀ name' interface port entries,
        (m.activate cfg env name).1.active.find name' interface port = some entries →
        m.active.find name' interface port = some entries ∨
          ∃ first, (m.services name).head? = some first ∧ ∀ a ∈ entries, a.service = first := by
  unfold activate
  cases hhead : (m.services name).head? with
  | none => exact ⟨rfl, h, fun _ _ _ _ hfind => .inl hfind⟩
  | some first =>
    have hname : first.name = name := h.registered name first (List.mem_of_head? hhead)
    have hfirst := hplain first hhead
    have hloop := each_history
      (fun m binding => m.activatePort cfg env name first binding.1 binding.2)
      (fun done t => Activated cfg m t first done) (bindings cfg env name first) [] m
      ⟨h, rfl, fun _ _ _ _ hfind => .inl hfind⟩ (by
        intro before binding rest t heq ht
        refine activatePort_spec ht hname fun s n hvalue hnumber => ?_
        have hmem : binding ∈ bindings cfg env name first := by
          rw [heq]
          exact List.mem_append_right _ List.mem_cons_self
        obtain ⟨hinterface, hport⟩ := mem_bindings.mp hmem
        rw [hvalue] at hport
        obtain ⟨hclosed, honly⟩ := hfirst _ hinterface s n hport hnumber
        refine ⟨hclosed, fun other hother hnum => ?_⟩
        rw [List.nil_append] at hother
        have hin : (binding.1, other) ∈ bindings cfg env name first := by
          rw [heq]
          exact List.mem_append_left _ hother
        obtain rfl : other = binding.2 := (honly other (mem_bindings.mp hin).2 hnum).trans
          hvalue.symm
        have hnodup := bindings_nodup cfg env name first
        rw [heq] at hnodup
        exact (List.disjoint_of_nodup_append hnodup) hother List.mem_cons_self)
    obtain ⟨hdone, hok⟩ := hloop
    refine ⟨hok, hdone.inv, fun name' interface port entries hfind => ?_⟩
    exact (hdone.entries _ _ _ _ hfind).imp_right fun hnew => ⟨first, rfl, hnew.1⟩

structure Deactivated (before m : Manager) (info : Option ServiceInfo)
    (done : List (String × String × ℕ)) : Prop where
  inv : m.Inv
  services : m.services = before.services
  entries : ∀ name interface port entries, m.active.find name interface port = some entries →
    before.active.find name interface port = some entries ∧
      ((name, interface, port) ∈ done → ∀ a ∈ entries, info ≠ none ∧ info ≠ some a.service)

theorem deactivateAt_spec {before : Manager} {info : Option ServiceInfo}
    {done : List (String × String × ℕ)} (h : Deactivated before m info done)
    (path : String × String × ℕ) :
    Deactivated before (m.deactivateAt env info path).1 info (done ++ [path]) ∧
      (m.deactivateAt env info path).2 = false := by
  obtain ⟨name, interface, port⟩ := path
  have hkeep : (∀ entries, m.active.find name interface port = some entries →
      ∀ a ∈ entries, info ≠ none ∧ info ≠ some a.service) →
      Deactivated before m info (done ++ [(name, interface, port)]) := by
    intro hhere
    refine ⟨h.inv, h.services, fun name' interface' port' entries hfind => ?_⟩
    obtain ⟨hold, hdone⟩ := h.entries _ _ _ _ hfind
    refine ⟨hold, fun hmem => ?_⟩
    rcases List.mem_append.mp hmem with hmem | hmem
    · exact hdone hmem
    · have heq := List.mem_singleton.mp hmem
      simp only [Prod.mk.injEq] at heq
      obtain ⟨rfl, rfl, rfl⟩ := heq
      exact hhere entries hfind
  unfold deactivateAt
  cases hfind : m.active.find name interface port with
  | none =>
    refine ⟨hkeep fun entries hentries => ?_, rfl⟩
    rw [hfind] at hentries
    cases hentries
  | some entries =>
    obtain ⟨a, rfl⟩ := h.inv.single _ _ _ _ hfind
    simp only [each_singleton]
    by_cases hmatch : info = none ∨ info = some a.service
    · rw [if_pos hmatch, close_spec h.inv env hfind]
      refine ⟨⟨closed_inv h.inv hfind, h.services, ?_⟩, rfl⟩
      intro name' interface' port' entries hfind'
      obtain ⟨hne, hold⟩ := of_find_remove hfind'
      obtain ⟨hbefore, hdone⟩ := h.entries _ _ _ _ hold
      refine ⟨hbefore, fun hmem => ?_⟩
      rcases List.mem_append.mp hmem with hmem | hmem
      · exact hdone hmem
      · have heq := List.mem_singleton.mp hmem
        simp only [Prod.mk.injEq] at heq
        exact absurd heq hne
    · rw [if_neg hmatch]
      rw [not_or] at hmatch
      refine ⟨hkeep fun entries hentries b hb => ?_, rfl⟩
      rw [hfind] at hentries
      obtain rfl := Option.some.inj hentries
      rw [List.mem_singleton.mp hb]
      exact hmatch

theorem deactivate_spec (h : m.Inv) (env : Env) (name : Option String)
    (info : Option ServiceInfo) :
    (m.deactivate env name info).1.Inv ∧
      (m.deactivate env name info).1.services = m.services ∧
      ((m.deactivate env name info).2 = false ↔ name ≠ none ∨ info ≠ none) ∧
      ∀ name' interface port entries,
        (m.deactivate env name info).1.active.find name' interface port = some entries →
        m.active.find name' interface port = some entries ∧
          (name.or (info.map (·.name)) = some name' →
            ∀ a ∈ entries, info ≠ none ∧ info ≠ some a.service) := by
  have hloop := fun paths => each_history (fun m path => m.deactivateAt env info path)
    (fun done t => Deactivated m t info done) paths [] m
    ⟨h, rfl, fun _ _ _ _ hfind => ⟨hfind, fun hmem => absurd hmem (List.not_mem_nil)⟩⟩
    fun before path rest t _ ht => deactivateAt_spec ht path
  unfold deactivate
  simp only
  generalize hpaths : ((m.active.paths env.services env.interfaces env.ports).filter fun path =>
    name.or (info.map (·.name)) = none ∨ name.or (info.map (·.name)) = some path.1) = paths
  obtain ⟨hdone, hok⟩ := hloop paths
  rw [if_neg (by simp [hok])]
  refine ⟨hdone.inv, hdone.services, ?_, fun name' interface port entries hfind => ?_⟩
  · cases name <;> cases info <;> simp
  · obtain ⟨hold, hclosed⟩ := hdone.entries _ _ _ _ hfind
    refine ⟨hold, fun hkey => hclosed ?_⟩
    rw [List.nil_append, ← hpaths, List.mem_filter]
    refine ⟨(Multitable.mem_paths _ _ _ _ _ _).mpr ⟨entries, hold⟩, ?_⟩
    simp [hkey]

theorem mem_of_mem_removeEach {service : ServiceInfo} {l : List ServiceInfo}
    (h : service ∈ removeEach info l) : service ∈ l := by
  induction l using removeEach.induct info with
  | case1 => exact h
  | case2 => simp [removeEach] at h
  | case3 other hne => simpa [removeEach, hne] using h
  | case4 next rest ih =>
    rw [removeEach, if_pos rfl] at h
    rcases List.mem_cons.mp h with rfl | h
    · simp
    · simp [ih h]
  | case5 first next rest hne ih =>
    rw [removeEach, if_neg hne] at h
    rcases List.mem_cons.mp h with rfl | h
    · simp
    · exact List.mem_cons_of_mem _ (ih h)

theorem update_inv (h : m.Inv) (name : String) (l : List ServiceInfo) (hl : ∀ info ∈ l, info.name = name) :
    Inv { m with services := Function.update m.services name l } :=
  { h with
    registered := by
      intro name' info hmem
      by_cases heq : name' = name
      · subst heq
        simp only [Function.update_self] at hmem
        exact hl info hmem
      · simp only [Function.update_of_ne heq] at hmem
        exact h.registered name' info hmem }

/-- No call raises an error, and no port stays open for a service that has been unregistered. -/
structure Behaves (cfg : Config) (m : Manager) (i : Input) : Prop where
  raised : (m.perform cfg i).2 = false
  unregistered : ∀ name info, i.op = .unregisterService name info →
    ∀ interface port, ¬ (m.perform cfg i).1.Open (fun service => service = info) interface port

theorem registerService_step (env : Env) (h : m.Inv) (hname : info.name = name)
    (hplain : Table.get m.active name = none →
      ∀ first, (m.services name ++ [info]).head? = some first →
        Plain cfg (m.Open fun _ => True) name first) :
    (m.registerService cfg env name info).1.Inv ∧
      (m.registerService cfg env name info).2 = false := by
  have hadded := update_inv h name (m.services name ++ [info]) fun service hmem => by
    rcases List.mem_append.mp hmem with hmem | hmem
    · exact h.registered name service hmem
    · rw [List.mem_singleton.mp hmem]
      exact hname
  unfold registerService
  simp only
  split
  · rename_i hnone
    obtain ⟨hok, hinv, -⟩ := activate_spec cfg env name hadded (by
      intro first hfirst
      simp only [Function.update_self] at hfirst
      exact hplain hnone first hfirst)
    exact ⟨hinv, hok⟩
  · exact ⟨hadded, rfl⟩

theorem other_of_deactivated (h : m.Inv) (env : Env) (info : ServiceInfo) {name interface : String}
    {port : ℕ}
    (hfind : (m.deactivate env none (some info)).1.active.find name interface port = some entries) :
    m.active.find name interface port = some entries ∧ ∀ a ∈ entries, a.service ≠ info := by
  obtain ⟨-, -, -, hleft⟩ := deactivate_spec h env none (some info)
  obtain ⟨hold, hclosed⟩ := hleft _ _ _ _ hfind
  refine ⟨hold, fun a ha hsame => ?_⟩
  obtain ⟨b, rfl⟩ := h.single _ _ _ _ hold
  obtain rfl := List.mem_singleton.mp ha
  have hname := h.named _ _ _ _ hold
  refine (hclosed ?_ a ha).2 (by rw [hsame])
  simp [← hname, hsame]

theorem unregisterService_step (env : Env) (h : m.Inv)
    (hrest : ∀ first, (removeEach info (m.services name)).head? = some first →
      first ≠ info ∧ Plain cfg (m.Open fun service => service ≠ info) name first) :
    (m.unregisterService cfg env name info).1.Inv ∧
      (m.unregisterService cfg env name info).2 = false ∧
      ∀ interface port, ¬ (m.unregisterService cfg env name info).1.Open
        (fun service => service = info) interface port := by
  have hremoved := update_inv h name (removeEach info (m.services name))
    fun service hmem => h.registered name service (mem_of_mem_removeEach hmem)
  unfold unregisterService
  simp only
  generalize removeEach info (m.services name) = left at hrest hremoved
  generalize hm' : ({ m with services := Function.update m.services name left } : Manager) = m'
    at hremoved
  have hactive : m'.active = m.active := by rw [← hm']
  have hservices : m'.services name = left := by
    rw [← hm']
    exact Function.update_self _ _ _
  obtain ⟨hinv, hsame, hok, -⟩ := deactivate_spec hremoved env none (some info)
  rw [if_neg (by simp [hok])]
  have hclosed : ∀ interface port, ¬ (m'.deactivate env none (some info)).1.Open
      (fun service => service = info) interface port := by
    rintro interface port ⟨name', entries, hfind, a, ha, rfl⟩
    exact (other_of_deactivated hremoved env a.service hfind).2 a ha rfl
  split
  · obtain ⟨hok', hinv', hentries⟩ := activate_spec cfg env name hinv (by
      intro first hfirst interface hinterface s n hport hnumber
      rw [hsame, hservices] at hfirst
      obtain ⟨hne, hplain⟩ := hrest first hfirst
      obtain ⟨hfree, honly⟩ := hplain interface hinterface s n hport hnumber
      refine ⟨?_, honly⟩
      rintro ⟨name', entries, hfind, a, ha, -⟩
      obtain ⟨hold, hserves⟩ := other_of_deactivated hremoved env info hfind
      rw [hactive] at hold
      exact hfree ⟨name', entries, hold, a, ha, hserves a ha⟩)
    refine ⟨hinv', hok', ?_⟩
    rintro interface port ⟨name', entries, hfind, a, ha, hservice⟩
    rcases hentries _ _ _ _ hfind with hold | ⟨first, hfirst, hall⟩
    · exact hclosed interface port ⟨name', entries, hold, a, ha, hservice⟩
    · rw [hsame, hservices] at hfirst
      exact (hrest first hfirst).1 ((hall a ha).symm.trans hservice)
  · exact ⟨hinv, hok.mpr (.inr (by simp)), hclosed⟩

theorem perform_step (h : m.Inv) {i : Input} (hsound : m.Sound cfg i) :
    (m.perform cfg i).1.Inv ∧ m.Behaves cfg i := by
  obtain ⟨env, op⟩ := i
  cases op with
  | registerService name info =>
    obtain ⟨hname, hplain⟩ := hsound
    obtain ⟨hinv, hok⟩ := registerService_step env h hname hplain
    exact ⟨hinv, hok, fun _ _ heq => by cases heq⟩
  | unregisterService name info =>
    obtain ⟨hinv, hok, hclosed⟩ := unregisterService_step env h hsound
    refine ⟨hinv, hok, fun name' info' heq => ?_⟩
    cases heq
    exact hclosed
  | activate name =>
    obtain ⟨hok, hinv, -⟩ := activate_spec cfg env name h hsound
    exact ⟨hinv, hok, fun _ _ heq => by cases heq⟩
  | deactivate name info =>
    obtain ⟨hinv, -, hok, -⟩ := deactivate_spec h env name info
    exact ⟨hinv, hok.mpr hsound, fun _ _ heq => by cases heq⟩
  | close interface port =>
    obtain ⟨name, entries, hfind, -⟩ := hsound
    obtain ⟨a, rfl⟩ := h.single _ _ _ _ hfind
    have hclose := close_spec h env hfind
    refine ⟨?_, ?_, fun _ _ heq => by cases heq⟩
    · change (m.close env interface port).1.Inv
      rw [hclose]
      exact closed_inv h hfind
    · change (m.close env interface port).2 = false
      rw [hclose]

end Manager

/-! ## Runs -/

def step (cfg : Config) (m : Manager) (i : Input) : Manager := (m.perform cfg i).1

/-- In every run whose calls meet the condition, the registry is accurate in every state, no call
raises an error, and unregistered services have no ports. -/
theorem registry_accurate (cfg : Config) {inputs : List Input}
    (h : Machine.Guarded (step cfg) (Manager.Sound cfg) new inputs) :
    Machine.Always (step cfg) Manager.Accurate new inputs ∧
      ∀ pre i post, inputs = pre ++ i :: post →
        (Machine.run (step cfg) new pre).Behaves cfg i := by
  have hstep : ∀ m i, Manager.Inv m → m.Sound cfg i → Manager.Inv (step cfg m i) :=
    fun m i hm hi => (Manager.perform_step hm hi).1
  have hinv : Machine.Always (step cfg) Manager.Inv new inputs :=
    Machine.always_of_guarded hstep Manager.new_inv h
  refine ⟨hinv.mono fun m hm => hm.toAccurate, ?_⟩
  rintro pre i post rfl
  have hat := Machine.always_iff.mp hinv pre (List.prefix_append _ _)
  have hsound := h.of_prefix (show pre ++ [i] <+: pre ++ i :: post by simp)
  exact (Manager.perform_step hat hsound).2

/-! ## Ports that are not open -/

def plainConfig : Config where
  interfaces _ := none
  ports _ := none
  defaultInterfaces := ["*"]
  defaultLocalInterfaces := ["127.0.0.1"]
  tonumber _ := none

/-- All ports can be opened. -/
def calm : Env where
  context _ _ := true
  addserver _ _ := true
  interfaceSet := ⟨List.dedup, fun _ _ => List.mem_dedup, List.nodup_dedup⟩
  portSet := ⟨List.dedup, fun _ _ => List.mem_dedup, List.nodup_dedup⟩
  services := KeyOrder.inserted _
  interfaces := KeyOrder.inserted _
  ports := KeyOrder.inserted _

def c2s : ServiceInfo := ⟨1, "c2s", none, false, none, some (.number 5222), false, ⟨none, none⟩⟩

theorem registry_accurate_c2s :
    Machine.Always (step plainConfig) Manager.Accurate new
      [⟨calm, .registerService "c2s" c2s⟩, ⟨calm, .unregisterService "c2s" c2s⟩] := by
  have hregister : Manager.Sound plainConfig new ⟨calm, .registerService "c2s" c2s⟩ := by
    refine ⟨rfl, fun _ first hfirst => ?_⟩
    obtain rfl : c2s = first := by simpa [new] using hfirst
    intro interface _ s n hport
    simp [bindPorts, plainConfig, c2s] at hport
  have hunregister : Manager.Sound plainConfig
      (step plainConfig new ⟨calm, .registerService "c2s" c2s⟩)
      ⟨calm, .unregisterService "c2s" c2s⟩ := by
    intro first hfirst
    have hnone : (Manager.removeEach c2s ((step plainConfig new
        ⟨calm, .registerService "c2s" c2s⟩).services "c2s")).head? = none := by decide +kernel
    rw [hnone] at hfirst
    cases hfirst
  have hcalls : Machine.Guarded (step plainConfig) (Manager.Sound plainConfig) new
      [⟨calm, .registerService "c2s" c2s⟩, ⟨calm, .unregisterService "c2s" c2s⟩] :=
    ⟨hregister, hunregister, trivial⟩
  exact (registry_accurate plainConfig hcalls).1

/-- Closing a port that is not open raises an error. -/
theorem close_raises : (new.perform plainConfig ⟨calm, .close "*" 5222⟩).2 = true := by
  decide +kernel

end Prosody.Portmanager
