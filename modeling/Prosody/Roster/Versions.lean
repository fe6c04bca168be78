import Prosody.Roster.Persistence

/-! # Roster versions (`plugins/mod_roster.lua`)

A client that comes back names the version of the roster it has, and is sent no items if the
server still counts the same one. A roster that was never saved has no version and is handed out
as the first one. -/

namespace Prosody.RosterManager

/-- `tonumber(roster[false].version or 1)`. -/
def Roster.serverVer (roster : Roster) : Option ℕ :=
  match roster.metadata.version with
  | .unset => some 1
  | .count n => some n
  | .unversioned => none

/-- The answer to a roster get: the items and their version, or neither. -/
def rosterGet (roster : Roster) (clientVer : Option ℕ) : Option (Table Jid Item × Option ℕ) :=
  if ¬ (clientVer.isSome ∧ roster.serverVer.isSome) ∨ clientVer ≠ roster.serverVer then
    some (roster.items, roster.serverVer)
  else none

/-- The roster is changed at a contact, which is not the user, and sessions come and go. -/
inductive Turn (self : Jid) where
  | mutate (jid : { jid : Jid // jid ≠ self }) (m : Mutation)
  | login
  | logout

def turn {self : Jid} (u : User) : Turn self → User
  | .mutate jid m => (u.mutate self jid m).2
  | .login =>
    let (roster, u) := u.loadRoster self
    { u with session := some roster }
  | .logout => { u with session := none }

/-! ## Growing versions -/

def Version.rank : Version → ℕ
  | .unset => 0
  | .count n => n + 1
  | .unversioned => 0

/-- The roster is the same, or has a later version, unless versions are not counted. -/
def Roster.Grown (r r' : Roster) : Prop :=
  r' = r ∨ (r.metadata.version = .unversioned ∧ r'.metadata.version = .unversioned) ∨
    r.metadata.version.rank < r'.metadata.version.rank

section

variable {r r' r'' : Roster} {u : User} {self : Jid}

theorem Roster.Grown.trans (h : r.Grown r') (h' : r'.Grown r'') : r.Grown r'' := by
  rcases h with rfl | ⟨hr, hr'⟩ | hlt
  · exact h'
  · rcases h' with rfl | ⟨-, hr''⟩ | hlt
    · exact .inr (.inl ⟨hr, hr'⟩)
    · exact .inr (.inl ⟨hr, hr''⟩)
    · rw [hr'] at hlt
      exact .inr (.inr (by rwa [hr]))
  · rcases h' with rfl | ⟨hr', -⟩ | hlt'
    · exact .inr (.inr hlt)
    · rw [hr'] at hlt
      exact absurd hlt (Nat.not_lt_zero _)
    · exact .inr (.inr (hlt.trans hlt'))

theorem Roster.grown_bump (h : r'.metadata.version = r.metadata.version) :
    r.Grown r'.bumpVersion := by
  have hbump : r'.bumpVersion.metadata.version = r.metadata.version.bump :=
    congrArg Version.bump h
  cases hversion : r.metadata.version with
  | unset => exact .inr (.inr (by simp [hbump, hversion, Version.bump, Version.rank]))
  | count n => exact .inr (.inr (by simp [hbump, hversion, Version.bump, Version.rank]))
  | unversioned => exact .inr (.inl ⟨hversion, by rw [hbump, hversion]; rfl⟩)

/-! ## Turns -/

theorem User.Healthy.mutate_cases (h : u.Healthy self) (jid : Jid) (m : Mutation) :
    (u.mutate self jid m).2 = u ∨ ∃ c, (u.mutate self jid m).2 = u.put jid c := by
  have hset : ∀ item, (u.setItem jid item).2 = u ∨ ∃ c, (u.setItem jid item).2 = u.put jid c := by
    intro item
    cases hs : u.session with
    | none => exact .inl (by simp [User.setItem, hs])
    | some r =>
      have hr : u.stored.roster = r := by simpa [User.roster, hs] using h.roster_eq.symm
      have hcached : u.Cached r :=
        ⟨⟨h.registered, h.storeAccepts, h.readable, h.sound⟩, hs, hr, h.noLegacy⟩
      exact .inr ⟨_, congrArg Prod.snd (hcached.setItem_eq item)⟩
  have hedit : ∀ f, (u.edit self jid f).2 = u ∨ ∃ c, (u.edit self jid f).2 = u.put jid c := by
    intro f
    rw [h.edit_eq f]
    cases f (u.contact jid) with
    | keep result => exact .inl rfl
    | save c => exact .inr ⟨c, rfl⟩
  cases m with
  | addToRoster item => exact hset (some item)
  | removeFromRoster => exact hset none
  | _ => exact hedit _

theorem User.Healthy.turn_grown (h : u.Healthy self) (t : Turn self) :
    (turn u t).Healthy self ∧ u.roster.Grown (turn u t).roster := by
  cases t with
  | mutate jid m =>
    simp only [turn]
    rcases h.mutate_cases jid m with hsame | ⟨c, hput⟩
    · rw [hsame]
      exact ⟨h, .inl rfl⟩
    · rw [hput, h.put_roster]
      exact ⟨h.put jid.2 c, Roster.grown_bump rfl⟩
  | login =>
    simp only [turn, h.loadRoster_eq]
    exact ⟨{ h with cached := .inr (congrArg some h.roster_eq) }, .inl rfl⟩
  | logout => exact ⟨{ h with cached := .inl rfl }, .inl h.roster_eq.symm⟩

theorem User.Healthy.run_grown (h : u.Healthy self) (turns : List (Turn self)) :
    (Machine.run turn u turns).Healthy self ∧ u.roster.Grown (Machine.run turn u turns).roster := by
  induction turns generalizing u with
  | nil => exact ⟨h, .inl rfl⟩
  | cons t turns ih =>
    obtain ⟨hhealthy, hgrown⟩ := h.turn_grown t
    exact ⟨(ih hhealthy).1, hgrown.trans (ih hhealthy).2⟩

/-! ## What the client is told -/

theorem rosterGet_eq_none_iff {ver : Option ℕ} :
    rosterGet r ver = none ↔ r.serverVer ≠ none ∧ ver = r.serverVer := by
  unfold rosterGet
  cases hver : r.serverVer <;> cases ver <;> simp

/-- A client that has the roster of an earlier state is sent no items exactly if versions are
counted and the roster is still the same, or had no version then and has been saved once since. -/
theorem no_items_iff (hu : u.Healthy self) (before after : List (Turn self)) :
    let earlier := (Machine.run turn u before).roster
    let later := (Machine.run turn u (before ++ after)).roster
    rosterGet later earlier.serverVer = none ↔ earlier.metadata.version ≠ .unversioned ∧
      (later = earlier ∨
        earlier.metadata.version = .unset ∧ later.metadata.version = .count 1) := by
  intro earlier later
  have hgrown : earlier.Grown later := by
    have hafter := ((hu.run_grown before).1.run_grown after).2
    rwa [← Machine.run_append] at hafter
  clear_value earlier later
  rw [rosterGet_eq_none_iff]
  unfold Roster.serverVer
  constructor
  · rintro ⟨hsome, heq⟩
    rcases hgrown with rfl | ⟨hr, hr'⟩ | hlt
    · exact ⟨fun hno => by simp [hno] at hsome, .inl rfl⟩
    · simp [hr'] at hsome
    · cases hr : earlier.metadata.version <;> cases hr' : later.metadata.version <;>
        simp_all [Version.rank]
  · rintro ⟨hcounted, rfl | ⟨hr, hr'⟩⟩
    · refine ⟨?_, rfl⟩
      cases hr : later.metadata.version <;> simp_all
    · simp [hr, hr']

end

def juliet : { jid : Jid // jid ≠ "romeo@montague.lit" } := ⟨"juliet@capulet.lit", by decide⟩

/-- A client that knows the empty roster is not sent the first contact. -/
theorem first_contact_not_sent :
    rosterGet (Machine.run turn newUser [.login, .mutate juliet (.addToRoster Item.fresh)]).roster
      newUser.roster.serverVer = none :=
  (no_items_iff ⟨rfl, rfl, rfl, rfl, rfl, rfl, .inl rfl⟩ [] _).mpr
    ⟨by decide, .inr ⟨by decide, by decide⟩⟩

end Prosody.RosterManager
