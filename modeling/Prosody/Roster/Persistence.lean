import Prosody.Core.StorageManager
import Prosody.Roster.Agreement

/-! # What the roster store holds

A save writes the metadata and one contact. The stored table nevertheless follows the roster
that the sessions share. -/

namespace Prosody.RosterManager

open StorageManager

/-! ## Roster tables

The table of a roster has the metadata under the key `false`, here `none`, and the contacts
under their addresses. -/

inductive Entry where
  | metadata (metadata : Metadata)
  | item (item : Item)
  | legacyPending (pending : Finset Jid)
  deriving DecidableEq

def Roster.entry (roster : Roster) : Option Jid → Option Entry
  | none => some (.metadata roster.metadata)
  | some jid => (roster.items.get jid).map .item

def Stored.entry (stored : Stored) : Option Jid → Option Entry
  | none => stored.metadata.map .metadata
  | some jid =>
    match stored.legacyPending with
    | some pending =>
      if jid = "pending" then some (.legacyPending pending)
      else (stored.items.get jid).map .item
    | none => (stored.items.get jid).map .item

/-- The `keyval` store of the user. -/
def User.keyval (u : User) : KeyVal (Option Jid) Entry where
  data := some u.stored.entry
  readError := u.readError
  accepts := u.storeAccepts

/-- What `save_roster` passes to `set_keys`. -/
def Roster.keydatas (roster : Roster) (jid : Jid) : List (Option Jid × Option Entry) :=
  [(none, some (.metadata roster.metadata)), (some jid, (roster.items.get jid).map .item)]

/-- Writing the metadata and one contact is `set_keys` of the shim. -/
theorem Stored.entry_setKeys (stored : Stored) (metadata : Metadata) (jid : Jid)
    (item : Option Item) :
    (stored.setKeys metadata jid item).entry =
      assign stored.entry [(none, some (.metadata metadata)), (some jid, item.map .item)] := by
  funext key
  cases key with
  | none => simp [assign, Stored.setKeys, Stored.entry]
  | some other =>
    by_cases h : other = jid
    · subst h
      by_cases hp : other = "pending"
      · simp [assign, Stored.setKeys, Stored.entry, hp]
      · cases hl : stored.legacyPending <;>
          simp [assign, Stored.setKeys, Stored.entry, hp, hl]
    · have hget : (stored.items.set jid item).get other = stored.items.get other :=
        Table.get_set_of_ne _ h item
      by_cases hj : jid = "pending"
      · subst hj
        cases hl : stored.legacyPending <;>
          simp [assign, Stored.setKeys, Stored.entry, h, hget, hl]
      · cases hl : stored.legacyPending <;>
          simp [assign, Stored.setKeys, Stored.entry, h, hget, hj, hl]

/-- On a sound roster `save_roster` and the shim do the same. -/
theorem User.setKeys_keyval (u : User) (roster : Roster) (jid : Jid)
    (hregistered : u.registered = true) (haccepts : u.storeAccepts = true)
    (hreadable : u.readError = none) (hsound : roster.metadata.broken = none) :
    setKeys u.keyval (roster.bumpVersion.keydatas jid) =
      (true, (u.saveRoster roster jid).2.2.keyval) := by
  rw [u.saveRoster_of_works hregistered haccepts hsound]
  simp only [setKeys, KeyVal.get, KeyVal.set, User.keyval, hreadable, haccepts,
    Stored.entry_setKeys]
  rfl

/-! ## A roster in memory -/

/-- The account exists, and its store works and holds no broken roster. -/
structure User.StoreWorks (u : User) : Prop where
  registered : u.registered = true
  storeAccepts : u.storeAccepts = true
  readable : u.readError = none
  sound : u.stored.roster.metadata.broken = none

/-- The sessions share `roster`, and the store loads as `roster`. -/
structure User.Cached (u : User) (roster : Roster) : Prop extends u.StoreWorks where
  session : u.session = some roster
  stored_roster : u.stored.roster = roster
  noLegacy : u.stored.legacyPending = none

/-- The first session of the user loads the roster. -/
def User.login (u : User) (self : Jid) : User :=
  let (roster, u) := u.readRoster self
  { u with session := some roster }

/-- The item of the user itself is dropped. -/
def Roster.withoutSelf (roster : Roster) (self : Jid) : Roster :=
  if (roster.items.get self).isSome then
    { roster with items := roster.items.set self none }.bumpVersion
  else roster

section

variable {u : User} {roster : Roster} {self jid : Jid}

theorem User.Cached.roster_eq (h : u.Cached roster) : u.roster = roster := by
  simp [User.roster, h.session]

theorem User.Cached.broken (h : u.Cached roster) : roster.metadata.broken = none := by
  rw [← h.stored_roster]
  exact h.sound

theorem Stored.roster_setKeys (stored : Stored) (roster : Roster) (c : Contact)
    (h : stored.items = roster.items) :
    (stored.setKeys (roster.setContact jid c).bumpVersion.metadata jid c.item).roster =
      (roster.setContact jid c).bumpVersion := by
  simp [Stored.setKeys, Stored.roster, h, Roster.setContact, Roster.bumpVersion]

theorem User.Cached.put (h : u.Cached roster) (jid : Jid) (c : Contact) :
    (u.put jid c).Cached (roster.setContact jid c).bumpVersion := by
  have hitems : u.stored.items = roster.items := congrArg Roster.items h.stored_roster
  have hstored : (u.put jid c).stored.roster = (roster.setContact jid c).bumpVersion := by
    simp only [User.put, h.roster_eq]
    exact Stored.roster_setKeys u.stored roster c hitems
  constructor
  · constructor
    · exact h.registered
    · exact h.storeAccepts
    · exact h.readable
    · rw [hstored]
      exact h.broken
  · simp [User.put, h.roster_eq, h.session]
  · exact hstored
  · simp [User.put, Stored.setKeys, h.noLegacy]

theorem User.Cached.entry_put (h : u.Cached roster) (jid : Jid) (c : Contact) :
    (u.put jid c).stored.entry = (roster.setContact jid c).bumpVersion.entry := by
  have hnew := h.put jid c
  have hitems : (u.put jid c).stored.items = (roster.setContact jid c).bumpVersion.items :=
    congrArg Roster.items hnew.stored_roster
  have hmetadata : (u.put jid c).stored.metadata =
      some (roster.setContact jid c).bumpVersion.metadata := by
    simp [User.put, Stored.setKeys, h.roster_eq]
  funext key
  cases key with
  | none => simp [Stored.entry, Roster.entry, hmetadata]
  | some other => simp [Stored.entry, Roster.entry, hnew.noLegacy, hitems]

theorem User.Cached.edit_eq (h : u.Cached roster) (f : Contact → Edit) :
    u.edit self jid f =
      match f (roster.contact jid) with
      | .keep result => (result, u)
      | .save c => (true, u.put jid c) := by
  simp only [User.edit, User.loadRoster, h.session]
  cases hf : f (roster.contact jid) with
  | keep result => rfl
  | save c =>
    have hsound : (roster.setContact jid c).metadata.broken = none := h.broken
    have hitem : (roster.setContact jid c).items.get jid = c.item :=
      Table.get_set_self _ _ _
    simp [u.saveRoster_of_works h.registered h.storeAccepts hsound, User.put, h.roster_eq,
      h.session, hitem]

theorem User.Cached.setItem_eq (h : u.Cached roster) (item : Option Item) :
    u.setItem jid item =
      (true, u.put jid { item := item, pending := (roster.contact jid).pending }) := by
  have hsound : ({ roster with items := roster.items.set jid item } : Roster).metadata.broken =
      none := h.broken
  simp [User.setItem, h.session, u.saveRoster_of_works h.registered h.storeAccepts hsound,
    User.put, h.roster_eq, roster.setContact_item]

theorem User.Cached.mutate_eq (h : u.Cached roster) (self jid : Jid) (m : Mutation) :
    u.mutate self jid m =
      match m.edit (roster.contact jid) with
      | .keep result => (result, u)
      | .save c => (true, u.put jid c) := by
  cases m with
  | addToRoster item => exact h.setItem_eq (some item)
  | removeFromRoster => exact h.setItem_eq none
  | _ => exact h.edit_eq _

end

/-! ## Loading -/

/-- The legacy entry is adopted and dropped. -/
def User.withoutLegacy (u : User) : Roster × User :=
  let roster : Roster := { items := u.stored.items, metadata := rosterMetadata u.stored none }
  if u.stored.legacyPending.isSome then (u.saveRoster roster "pending").2 else (roster, u)

variable {u : User}

theorem User.StoreWorks.readRoster_eq (h : u.StoreWorks) (self : Jid) : u.readRoster self =
      if (u.withoutLegacy.1.items.get self).isSome then (u.withoutLegacy.2.saveRoster
          { u.withoutLegacy.1 with items := u.withoutLegacy.1.items.set self none } self).2
      else u.withoutLegacy := by
  simp only [User.readRoster, h.readable, Option.isSome_none, Bool.false_eq_true, if_false]
  rfl

variable {roster : Roster}

/-- A save makes the store load as the saved roster. -/
theorem User.StoreWorks.cached_save (h : u.StoreWorks) {jid : Jid}
    (hsound : roster.metadata.broken = none)
    (hlegacy : jid = "pending" ∨ u.stored.legacyPending = none)
    (hitems : u.stored.items.set jid (roster.items.get jid) = roster.items) :
    ({ (u.saveRoster roster jid).2.2 with session := some (u.saveRoster roster jid).2.1 } :
      User).Cached (u.saveRoster roster jid).2.1 := by
  rw [u.saveRoster_of_works h.registered h.storeAccepts hsound]
  constructor
  · exact ⟨h.registered, h.storeAccepts, h.readable, hsound⟩
  · rfl
  · simp only [Stored.roster, Stored.setKeys, hitems]
    rfl
  · rcases hlegacy with hp | hp <;> simp [Stored.setKeys, hp]

theorem rosterMetadata_of_noLegacy {stored : Stored} (h : stored.legacyPending = none) :
    rosterMetadata stored none = stored.roster.metadata := by
  simp only [rosterMetadata, h, Stored.roster]
  rfl

theorem User.withoutLegacy_of_noLegacy (u : User) (h : u.stored.legacyPending = none) :
    u.withoutLegacy = (u.stored.roster, u) := by
  simp only [User.withoutLegacy, h, Option.isSome_none, Bool.false_eq_true, if_false,
    rosterMetadata_of_noLegacy h]
  rfl

theorem User.StoreWorks.cached_withoutLegacy (h : u.StoreWorks) :
    ({ u.withoutLegacy.2 with session := some u.withoutLegacy.1 } : User).Cached
      u.withoutLegacy.1 := by
  cases hl : u.stored.legacyPending with
  | none =>
    rw [u.withoutLegacy_of_noLegacy hl]
    exact ⟨⟨h.registered, h.storeAccepts, h.readable, h.sound⟩, rfl, rfl, hl⟩
  | some pending =>
    have hsound : (rosterMetadata u.stored none).broken = none := by
      have hstored : (u.stored.metadata.getD Metadata.fresh).broken = none := h.sound
      simp only [rosterMetadata, hl]
      exact hstored
    have heq : u.withoutLegacy = (u.saveRoster
        { items := u.stored.items, metadata := rosterMetadata u.stored none } "pending").2 := by
      simp only [User.withoutLegacy, hl, Option.isSome_some, if_true]
    rw [heq]
    exact h.cached_save hsound (Or.inl rfl) (Table.set_get_self _ _)

theorem User.StoreWorks.login (h : u.StoreWorks) (self : Jid) :
    (u.login self).Cached (u.readRoster self).1 := by
  have hcached := h.cached_withoutLegacy
  change ({ (u.readRoster self).2 with session := some (u.readRoster self).1 } : User).Cached _
  have hread := h.readRoster_eq self
  split at hread
  · have hitems : u.withoutLegacy.2.stored.items = u.withoutLegacy.1.items :=
      congrArg Roster.items hcached.stored_roster
    have hworks : u.withoutLegacy.2.StoreWorks :=
      ⟨hcached.registered, hcached.storeAccepts, hcached.readable, hcached.sound⟩
    rw [hread]
    refine hworks.cached_save hcached.broken (Or.inr hcached.noLegacy) ?_
    simp [hitems]
  · rw [hread]
    exact hcached

theorem User.Cached.reload (h : u.Cached roster) (self : Jid) :
    (({ u with session := none } : User).loadRoster self).1 = roster.withoutSelf self := by
  have hworks : ({ u with session := none } : User).StoreWorks :=
    ⟨h.registered, h.storeAccepts, h.readable, h.sound⟩
  have hlegacy : ({ u with session := none } : User).withoutLegacy =
      (roster, { u with session := none }) := by
    rw [User.withoutLegacy_of_noLegacy { u with session := none } h.noLegacy]
    exact congrArg (fun loaded => (loaded, { u with session := none })) h.stored_roster
  have hsound : ({ roster with items := roster.items.set self none } : Roster).metadata.broken =
      none := h.broken
  have hread := hworks.readRoster_eq self
  rw [hlegacy] at hread
  simp only [User.loadRoster, hread, Roster.withoutSelf]
  split
  · rw [User.saveRoster_of_works _ hworks.registered hworks.storeAccepts hsound]
  · rfl

/-! ## Sequences of mutations -/

def Edit.saves : Edit → Bool
  | .save _ => true
  | .keep _ => false

/-- A mutation of a user online, whose roster is `roster` before and `roster'` afterwards: the
store has what the sessions have, by way of the shim, and only a save counts the version. -/
structure Persisted (self : Jid) (u : User) (jid : Jid) (m : Mutation) (roster roster' : Roster) :
    Prop where
  before : u.session = some roster
  after : (u.mutate self jid m).2.session = some roster'
  saved : (m.edit (roster.contact jid)).saves → (u.mutate self jid m).1 = true
  stored : (m.edit (roster.contact jid)).saves →
    (u.mutate self jid m).2.stored.entry = roster'.entry
  written : (m.edit (roster.contact jid)).saves →
    setKeys u.keyval (roster'.keydatas jid) = (true, (u.mutate self jid m).2.keyval)
  version : (m.edit (roster.contact jid)).saves →
    roster'.metadata.version = roster.metadata.version.bump
  unchanged : (m.edit (roster.contact jid)).saves = false → (u.mutate self jid m).2 = u
  reloaded : (({ (u.mutate self jid m).2 with session := none } : User).loadRoster self).1 =
    roster'.withoutSelf self

theorem User.Cached.persisted (h : u.Cached roster) (self jid : Jid) (m : Mutation) :
    ∃ roster', (u.mutate self jid m).2.Cached roster' ∧ Persisted self u jid m roster roster' := by
  have hmutate := h.mutate_eq self jid m
  cases hedit : m.edit (roster.contact jid) with
  | keep result =>
    have hresult : u.mutate self jid m = (result, u) := by rw [hmutate, hedit]
    refine ⟨roster, by rw [hresult]; exact h, ?_⟩
    constructor <;> simp [hedit, Edit.saves, hresult, h.session, h.reload self]
  | save c =>
    have hresult : u.mutate self jid m = (true, u.put jid c) := by rw [hmutate, hedit]
    have hput := h.put jid c
    have hwritten := u.setKeys_keyval (roster.setContact jid c) jid
      h.registered h.storeAccepts h.readable h.broken
    refine ⟨(roster.setContact jid c).bumpVersion, by rw [hresult]; exact hput, ?_⟩
    constructor
    · exact h.session
    · rw [hresult]
      exact hput.session
    · simp [hresult]
    · intro _
      rw [hresult]
      exact h.entry_put jid c
    · intro _
      have hitem : (roster.setContact jid c).items.get jid = c.item :=
        Table.get_set_self _ _ _
      have hsound : (roster.setContact jid c).metadata.broken = none := h.broken
      rw [hresult, hwritten, u.saveRoster_of_works h.registered h.storeAccepts hsound]
      simp [User.put, User.keyval, h.roster_eq, hitem]
    · intro _
      rfl
    · simp [hedit, Edit.saves]
    · rw [hresult]
      exact hput.reload self

def mutateStep (self : Jid) (u : User) (call : Jid × Mutation) : User :=
  (u.mutate self call.1 call.2).2

/-- With a working store, every mutation in any sequence of mutations leaves the stored table
equal to the roster in memory. -/
theorem mutations_persist (u : User) (self : Jid) (hu : u.StoreWorks)
    (calls : List (Jid × Mutation)) (jid : Jid) (m : Mutation) :
    ∃ roster roster',
      Persisted self (Machine.run (mutateStep self) (u.login self) calls) jid m roster roster' := by
  have hcached : ∃ roster, (Machine.run (mutateStep self) (u.login self) calls).Cached roster := by
    refine Machine.run_invariant (P := fun u : User => ∃ roster, u.Cached roster) ?_
      ⟨_, hu.login self⟩ calls
    rintro u ⟨jid, m⟩ ⟨roster, h⟩
    obtain ⟨roster', h', -⟩ := h.persisted self jid m
    exact ⟨roster', h'⟩
  obtain ⟨roster, h⟩ := hcached
  obtain ⟨roster', -, hpersisted⟩ := h.persisted self jid m
  exact ⟨roster, roster', hpersisted⟩

/-- A user without a session and with an empty store. -/
def newUser : User :=
  { registered := true
    session := none
    stored := Stored.empty
    readError := none
    storeAccepts := true }

/-- A request from a contact and its approval. -/
theorem mutations_persist_newUser :
    ∃ roster roster', Persisted "juliet@capulet"
      (Machine.run (mutateStep "juliet@capulet") (newUser.login "juliet@capulet")
        [("romeo@montague", .setContactPendingIn)])
      "romeo@montague" .subscribed roster roster' :=
  mutations_persist newUser "juliet@capulet" ⟨rfl, rfl, rfl, rfl⟩ _ _ _

/-- An item for the user itself is saved, and gone when the roster is loaded afresh. -/
theorem self_contact_not_reloaded :
    let u := ((newUser.login "juliet@capulet").mutate "juliet@capulet" "juliet@capulet"
      .setContactPendingOut)
    u.1 = true ∧
      some (({ u.2 with session := none } : User).loadRoster "juliet@capulet").1 ≠
        u.2.session := by
  decide +kernel

end Prosody.RosterManager
