import Prosody.Muc.Authority

/-! # Owners, admins and moderators under the calls of users

On a server without admins of its own, what any sequence of `set_affiliation` and `set_role`
calls of users can and cannot do. -/

namespace Prosody.Muc

/-- A server that makes nobody owner of every room. -/
def Server.plain (enc : Jid.Stringprep) : Server := { admin := fun _ => false, enc := enc }

namespace Room

inductive Call where
  | setAffiliation (jid : String) (affiliation : Option String) (data : DataArg)
  | setRole (occupantJid : String) (role : Option String)

/-- A call that the user `actor` makes. -/
def call (sv : Server) (r : Room) : Env × String × Call → Room × Except Error Unit
  | (env, actor, .setAffiliation jid affiliation data) =>
    r.setAffiliation sv env (.user actor) jid affiliation data
  | (env, actor, .setRole occupantJid role) => r.setRole sv env (.user actor) occupantJid role

def HasOwner (r : Room) : Prop := ∃ j, r.affiliations.get j = some .owner

def IsModerator (r : Room) (nick : String) : Prop :=
  ∃ o, r.occupants.get nick = some o ∧ o.role = some .moderator

/-- Affiliations, their data and the occupants are as they were. -/
structure Unchanged (r r' : Room) : Prop where
  affiliations : r'.affiliations = r.affiliations
  affiliationData : r'.affiliationData = r.affiliationData
  occupants : r'.occupants = r.occupants

/-- What a call of `actor` may do to the room. -/
structure Lawful (sv : Server) (r : Room) (actor : String) (c : Call)
    (result : Room × Except Error Unit) : Prop where
  owner : r.HasOwner → result.1.HasOwner
  ranks : ∀ jid affiliation data, c = .setAffiliation jid affiliation data →
    result.2 = .ok () → r.getAffiliation sv actor ≠ some .owner →
    ∀ j a, a = .owner ∨ a = .admin →
      (r.getAffiliation sv j = some a ↔ result.1.getAffiliation sv j = some a)
  powerless : r.getAffiliation sv actor ≠ some .owner → r.getAffiliation sv actor ≠ some .admin →
    result.1.affiliations = r.affiliations ∧
      ∀ nick, r.IsModerator nick ↔ result.1.IsModerator nick
  error : ∀ e, result.2 = .error e → r.Unchanged result.1

section

variable {enc : Jid.Stringprep} {r : Room}

theorem getAffiliation_plain (jid : String) :
    r.getAffiliation (.plain enc) jid = r.storedAffiliation jid := by
  simp [getAffiliation, Server.isAdmin, Server.plain]

theorem applyAffiliation_hasOwner {env : Env} {actor : String} {target : Jid}
    {affiliation : Option Affiliation} {data : DataArg} (h : r.HasOwner)
    (hd : r.affiliationDenied (.plain enc) (.user actor) target.bareParts.join affiliation = none) :
    (r.applyAffiliation env target affiliation data).HasOwner := by
  unfold HasOwner
  rw [applyAffiliation_affiliations]
  rcases affiliationDenied_none hd with ⟨howner, hself⟩ | ⟨-, -, -, htarget, -⟩
  · rw [getAffiliation_plain, storedAffiliation_iff (by decide)] at howner
    obtain ⟨b, hb, hown⟩ := howner
    by_cases hbj : b = target.bareParts.join
    · -- the actor changes its own affiliation, and there is another owner
      obtain ⟨j, hne, hj⟩ := hself (by rw [hb, hbj])
      exact ⟨j, by rw [Table.get_set_of_ne _ hne]; exact hj⟩
    · exact ⟨b, by rw [Table.get_set_of_ne _ hbj]; exact hown⟩
  · obtain ⟨j, hj⟩ := h
    have hne : j ≠ target.bareParts.join := by
      rintro rfl
      exact htarget hj
    exact ⟨j, by rw [Table.get_set_of_ne _ hne]; exact hj⟩

/-- A change by an admin neither grants nor revokes these affiliations. -/
theorem applyAffiliation_ranks {env : Env} {target : Jid} {affiliation : Option Affiliation}
    {data : DataArg} {a : Affiliation} (ha : a ≠ .outcast) (hnew : affiliation ≠ some a)
    (hold : r.affiliations.get target.bareParts.join ≠ some a) (j : String) :
    r.storedAffiliation j = some a ↔
      (r.applyAffiliation env target affiliation data).storedAffiliation j = some a := by
  rw [storedAffiliation_iff ha, storedAffiliation_iff ha]
  apply exists_congr
  intro b
  rw [applyAffiliation_affiliations]
  by_cases hb : b = target.bareParts.join
  · rw [hb, Table.get_set_self]
    constructor
    · rintro ⟨-, hg⟩
      exact absurd hg hold
    · rintro ⟨-, hg⟩
      exact absurd hg hnew
  · rw [Table.get_set_of_ne _ hb]

theorem setAffiliation_lawful (env : Env) (actor jid : String) (affiliation : Option String)
    (data : DataArg) :
    Lawful (.plain enc) r actor (.setAffiliation jid affiliation data)
      (r.setAffiliation (.plain enc) env (.user actor) jid affiliation data) := by
  cases hres : (r.setAffiliation (.plain enc) env (.user actor) jid affiliation data).2 with
  | error e =>
    obtain ⟨hsame, -⟩ := setAffiliation_error hres
    constructor
    · rw [hsame]
      exact id
    · intro _ _ _ _ hok
      rw [hres] at hok
      cases hok
    · intro _ _
      rw [hsame]
      exact ⟨rfl, fun _ => Iff.rfl⟩
    · intro _ _
      rw [hsame]
      exact ⟨rfl, rfl, rfl⟩
  | ok u =>
    obtain ⟨target, affiliation', hc, happ⟩ := setAffiliation_ok hres
    obtain ⟨-, -, -, hd⟩ := affiliationChange_ok hc
    constructor
    · intro h
      rw [happ]
      exact applyAffiliation_hasOwner h hd
    · intro _ _ _ _ _ hactor j a ha
      rcases affiliationDenied_none hd with ⟨howner, -⟩ | ⟨-, h1, h2, h3, h4⟩
      · exact absurd howner hactor
      · rw [happ, getAffiliation_plain, getAffiliation_plain]
        rcases ha with rfl | rfl
        · exact applyAffiliation_ranks (by decide) h1 h3 j
        · exact applyAffiliation_ranks (by decide) h2 h4 j
    · intro howner hadmin
      rcases affiliationDenied_none hd with ⟨h, -⟩ | ⟨h, -⟩
      · exact absurd h howner
      · exact absurd h hadmin
    · intro e he
      rw [hres] at he
      cases he

theorem roleDenied_moderator {sv : Server} {actor : String} {o : Occupant} {role : Option Role}
    (hd : r.roleDenied sv (.user actor) o role = false)
    (howner : r.getAffiliation sv actor ≠ some .owner)
    (hadmin : r.getAffiliation sv actor ≠ some .admin) :
    o.role ≠ some .moderator ∧ role ≠ some .moderator := by
  simp only [roleDenied, decide_eq_false_iff_not] at hd
  push Not at hd
  obtain ⟨-, -, hmod, -⟩ := hd
  by_contra hboth
  have hor : o.role = some .moderator ∨ role = some .moderator := by tauto
  exact hadmin (hmod hor howner)

theorem Consistent.setRole_lawful (h : r.Consistent) (env : Env) (actor nick : String)
    (role : Option String) :
    Lawful (.plain enc) r actor (.setRole nick role)
      (r.setRole (.plain enc) env (.user actor) nick role) := by
  constructor
  · rintro ⟨j, hj⟩
    exact ⟨j, by rw [setRole_affiliations]; exact hj⟩
  · intro _ _ _ hne
    cases hne
  · intro howner hadmin
    refine ⟨setRole_affiliations _ _ _ _ _ _, ?_⟩
    intro m
    unfold Room.setRole
    cases hc : r.roleChange (.plain enc) (.user actor) nick role with
    | error e => exact Iff.rfl
    | ok change =>
      obtain ⟨o, role'⟩ := change
      obtain ⟨-, ho, -, hd⟩ := roleChange_ok hc
      rw [h.whole.getOccupantByNick] at ho
      obtain ⟨hold, hnew⟩ := roleDenied_moderator hd howner hadmin
      dsimp only [IsModerator]
      rw [h.saveRole_get env.order ho]
      by_cases hm : m = nick
      · subst hm
        rw [if_pos rfl, ho]
        cases role' with
        | none => simpa using hold
        | some role' => simpa [hold] using hnew
      · rw [if_neg hm]
  · intro e he
    rw [setRole_error he]
    exact ⟨rfl, rfl, rfl⟩

theorem Consistent.call_lawful (h : r.Consistent) (env : Env) (actor : String) (c : Call) :
    Lawful (.plain enc) r actor c (r.call (.plain enc) (env, actor, c)) := by
  cases c with
  | setAffiliation jid affiliation data => exact setAffiliation_lawful env actor jid affiliation data
  | setRole nick role => exact h.setRole_lawful env actor nick role

theorem Consistent.call (h : r.Consistent) (sv : Server) (c : Env × String × Call) :
    (r.call sv c).1.Consistent := by
  obtain ⟨env, actor, c⟩ := c
  cases c with
  | setAffiliation jid affiliation data => exact h.setAffiliation sv env _ jid affiliation data
  | setRole nick role => exact h.setRole sv env _ nick role

end

/-- In every state of every run of calls, whatever the next call is, it is lawful. -/
theorem calls_lawful {enc : Jid.Stringprep} {r : Room} (h : Reachable (.plain enc) r)
    (calls : List (Env × String × Call)) (env : Env) (actor : String) (c : Call) :
    let s := Machine.run (fun r c => (r.call (.plain enc) c).1) r calls
    Lawful (.plain enc) s actor c (s.call (.plain enc) (env, actor, c)) := by
  have hc := Machine.run_invariant (P := Consistent)
    (fun r c hr => Consistent.call hr (.plain enc) c) h.consistent calls
  exact hc.call_lawful env actor c

/-- Juliet makes Romeo an owner, and Romeo then takes the ownership from her. -/
theorem calls_lawful_garden :
    let s := Machine.run (fun r c => (r.call (.plain ⟨some, some, some⟩) c).1) garden
      [(ascending, "juliet@capulet/balcony", .setAffiliation "romeo@montague" (some "owner") .keep)]
    Lawful (.plain ⟨some, some, some⟩) s "romeo@montague/orchard"
      (.setAffiliation "juliet@capulet" (some "none") .keep)
      (s.call (.plain ⟨some, some, some⟩) (ascending, "romeo@montague/orchard",
        .setAffiliation "juliet@capulet" (some "none") .keep)) :=
  calls_lawful garden_reachable _ _ _ _

end Room

end Prosody.Muc
