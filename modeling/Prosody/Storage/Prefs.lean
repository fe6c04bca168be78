import Prosody.Library.Runs
import Prosody.Library.Table

/-! # Archiving preferences (`plugins/mod_mam/mamprefs.lib.lua`)

The sessions of a user share what was last read from the store or written to it. -/

namespace Prosody.MamPrefs

inductive Policy
  | always | never | roster
deriving DecidableEq

/-- `prefs[false]`, and the rules for contacts. -/
structure Prefs where
  default : Option Policy
  rules : Table String Bool
deriving DecidableEq

structure Config where
  globalDefaultPolicy : Policy
  smartEnable : Bool

/-- The preferences where there are none. -/
def Config.fallback (c : Config) : Prefs :=
  ⟨some (if c.smartEnable then .never else c.globalDefaultPolicy), ∅⟩

/-- The store, and `archive_prefs` of the sessions, if there are any. -/
structure User where
  stored : Option Prefs
  cache : Option (Option Prefs)

/-- `prefs:set`; the store drops a table without entries. By `ok` the store changes: where an empty
table cannot be written, the file is removed all the same before the second attempt. -/
def User.store (u : User) (p : Prefs) (ok : Bool) : User :=
  if ok then { u with stored := if p = ⟨none, ∅⟩ then none else some p } else u

def User.remember (u : User) (p : Option Prefs) : User :=
  { u with cache := u.cache.map fun _ => p }

def getPrefs (c : Config) (u : User) (explicit ok : Bool) : Prefs × User :=
  match u.cache.join, u.stored with
  | some p, _ => (p, u)
  | none, some p => (p, u.remember (some p))
  | none, none =>
    if c.smartEnable && explicit then
      let p : Prefs := ⟨some c.globalDefaultPolicy, ∅⟩
      (p, (u.store p ok).remember (some p))
    else (c.fallback, u.remember none)

def setPrefs (u : User) (p : Prefs) (ok : Bool) : User := (u.remember (some p)).store p ok

/-- What happens, and whether what is written changes the store. -/
inductive Call
  | login
  | logout
  | get (explicit ok : Bool)
  | set (p : Prefs) (ok : Bool)

def step (c : Config) (u : User) : Call → User
  | .login => { u with cache := u.cache.orElse fun _ => some none }
  | .logout => { u with cache := none }
  | .get explicit ok => (getPrefs c u explicit ok).2
  | .set p ok => setPrefs u p ok

/-- What `shall_store` of `mod_mam.lua` goes by. -/
def inForce (c : Config) (u : User) : Prefs := (getPrefs c u false true).1

/-- What is in force stays so when the sessions end. -/
def Kept (c : Config) (u : User) : Prop := inForce c { u with cache := none } = inForce c u

/-- If there are sessions, preferences that are not those in force get into the store. -/
def Careful (c : Config) (u : User) : Call → Prop
  | .set p ok => u.cache.isSome → if ok then p ≠ ⟨none, ∅⟩ else p = inForce c u
  | .get explicit ok =>
    c.smartEnable ∧ explicit ∧ u.cache = some none ∧ u.stored = none →
      ok ∨ c.globalDefaultPolicy = .never
  | _ => True

section

variable {c : Config} {u : User}

theorem inForce_eq : inForce c u = u.cache.join.getD (u.stored.getD c.fallback) := by
  unfold inForce getPrefs
  cases u.cache.join <;> cases u.stored <;> simp

theorem kept_iff :
    Kept c u ↔ u.cache.join.getD (u.stored.getD c.fallback) = u.stored.getD c.fallback := by
  rw [Kept, inForce_eq, inForce_eq]
  exact eq_comm

theorem Kept.get_iff (h : Kept c u) (explicit ok : Bool) :
    Kept c (getPrefs c u explicit ok).2 ↔ Careful c u (.get explicit ok) := by
  rw [kept_iff] at h ⊢
  obtain ⟨stored, cache⟩ := u
  cases hcache : cache.join with
  | some p =>
    refine iff_of_true (by simpa [getPrefs, hcache] using h) ?_
    rintro ⟨-, -, hno, -⟩
    simp [show cache = some none from hno] at hcache
  | none =>
    cases stored with
    | some p =>
      refine iff_of_true ?_ (by simp [Careful])
      cases cache <;> simp [getPrefs, User.remember, hcache]
    | none =>
      obtain ⟨policy, smart⟩ := c
      rcases cache with _ | _ | p
      · cases smart <;> cases explicit <;> cases ok <;> simp [getPrefs, User.remember,
          User.store, Careful]
      · cases smart <;> cases explicit <;> cases ok <;> simp [getPrefs, User.remember,
          User.store, Careful, Config.fallback]
      · cases hcache

theorem Kept.set_iff (h : Kept c u) (p : Prefs) (ok : Bool) :
    Kept c (setPrefs u p ok) ↔ Careful c u (.set p ok) := by
  rw [kept_iff] at h ⊢
  have hfallback : ⟨none, ∅⟩ ≠ c.fallback := fun heq => by cases congrArg Prefs.default heq
  cases hcache : u.cache with
  | none => cases ok <;> simp [setPrefs, User.remember, User.store, Careful, hcache]
  | some cache =>
    cases ok with
    | false =>
      have hforce : inForce c u = u.stored.getD c.fallback := inForce_eq.trans h
      simp [setPrefs, User.remember, User.store, Careful, hcache, hforce]
    | true =>
      by_cases hp : p = ⟨none, ∅⟩ <;>
        simp [setPrefs, User.remember, User.store, Careful, hcache, hp, hfallback]

theorem Kept.step_iff (h : Kept c u) (call : Call) : Kept c (step c u call) ↔ Careful c u call := by
  cases call with
  | login =>
    refine iff_of_true ?_ trivial
    rw [kept_iff] at h ⊢
    cases hcache : u.cache <;> simp_all [step]
  | logout => exact iff_of_true rfl trivial
  | get explicit ok => exact h.get_iff explicit ok
  | set p ok => exact h.set_iff p ok

end

/-- What is archived does not depend on whether there is a session, exactly if no session is given
other preferences than the store. -/
theorem always_kept_iff (c : Config) (stored : Option Prefs) (calls : List Call) :
    Machine.Always (step c) (Kept c) ⟨stored, none⟩ calls ↔
      Machine.Guarded (step c) (Careful c) ⟨stored, none⟩ calls := by
  have hstart : Kept c ⟨stored, none⟩ := rfl
  exact Machine.always_iff_guarded (fun _ h => h) (fun _ call h => (h.step_iff call).mpr)
    (fun _ call h => (h.step_iff call).mp) hstart calls

end Prosody.MamPrefs
