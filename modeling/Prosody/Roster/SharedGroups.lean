import Prosody.Library.Runs
import Prosody.Roster.Manager

/-! # Shared groups (`plugins/mod_groups.lua`)

Contacts from a file of groups are added to rosters when these are loaded, with a mark that keeps
them from being stored. The user exists and reading and writing the store succeed. -/

namespace Prosody.SharedGroups

open RosterManager

/-! ## The groups -/

/-- What is read from the file: the members of each group with their names, and the groups that an
address is a member of, where the public groups stand under `none`. -/
structure Groups where
  groups : String → List (Jid × Option String)
  members : Option Jid → List String

/-- A roster with the contacts whose field `persist` is `false`. -/
structure Live where
  roster : Roster
  virtual : Finset Jid

def importJid (owner : Jid) (group : String) (live : Live) (entry : Jid × Option String) : Live :=
  if entry.1 = owner then live
  else
    let item := (live.roster.items.get entry.1).getD Item.fresh
    { roster :=
        { live.roster with
          items := live.roster.items.set entry.1 (some { item with
            subscription := .both
            name := entry.2.or item.name
            groups := insert group item.groups }) }
      virtual := insert entry.1 live.virtual }

def importJidsToRoster (g : Groups) (owner : Jid) (live : Live) (group : String) : Live :=
  (g.groups group).foldl (importJid owner group) live

def Live.withVersion (live : Live) (version : Version) : Live :=
  { live with
    roster := { live.roster with metadata := { live.roster.metadata with version := version } } }

/-- A user who is in no group keeps a versioned roster. -/
def injectRosterContacts (g : Groups) (owner : Jid) (live : Live) : Live :=
  if g.members (some owner) = [] ∧ g.members none = [] then live
  else
    let live := (g.members (some owner)).foldl (importJidsToRoster g owner) live
    ((g.members none).foldl (importJidsToRoster g owner) live).withVersion .unversioned

/-- What the storage callback leaves of the entry that is written with the metadata. The entries
that were stored before have no mark. -/
def removeVirtualContacts (virtual : Finset Jid) (jid : Jid) (stored : Stored) : Stored :=
  { stored with
    items := if jid ∈ virtual then stored.items.set jid none else stored.items
    metadata := stored.metadata.map fun metadata => { metadata with version := .unset } }

/-! ## Loading and saving -/

/-- `save_roster` with a contact. The callback empties the version that the roster shares with what
is written. -/
def saveRoster (stored : Stored) (live : Live) (jid : Jid) : Live × Stored :=
  let roster := live.roster.bumpVersion
  (live.withVersion .unset,
    removeVirtualContacts live.virtual jid
      (stored.setKeys roster.metadata jid (roster.items.get jid)))

/-- `save_roster` without a contact, which writes the whole roster. -/
def saveWholeRoster (live : Live) : Live × Stored :=
  (live.withVersion .unset,
    { items := live.roster.items.filter fun jid _ => decide (jid ∉ live.virtual)
      metadata := some { live.roster.metadata with version := .unset }
      legacyPending := none })

/-- A roster as it was stored, without an entry for the user. -/
def readRoster (owner : Jid) (stored : Stored) : Live × Stored :=
  let live : Live := ⟨⟨stored.items, rosterMetadata stored none⟩, ∅⟩
  let r := if stored.legacyPending.isSome then saveRoster stored live "pending" else (live, stored)
  if (r.1.roster.items.get owner).isSome then
    saveRoster r.2
      { r.1 with roster := { r.1.roster with items := r.1.roster.items.set owner none } } owner
  else r

/-- One user, with the roster that the sessions share if there are any, and the contacts that the
user has added and not removed. -/
structure Account where
  stored : Stored
  session : Option Live
  own : Finset Jid

/-- The stored contacts are the user's own. -/
def start (stored : Stored) : Account := ⟨stored, none, stored.items.keys⟩

def loadRoster (g : Groups) (owner : Jid) (a : Account) : Live × Account :=
  match a.session with
  | some live => (live, a)
  | none =>
    let r := readRoster owner a.stored
    (injectRosterContacts g owner r.1, { a with stored := r.2 })

/-! ## Changes -/

/-- A new entry takes the place of the old one. -/
def replaces : Mutation → Bool
  | .addToRoster _ | .removeFromRoster => true
  | _ => false

/-- The entry of the contact is made anew, or it is gone. -/
def renewed (m : Mutation) (before after : Option Item) : Bool :=
  replaces m || before.isNone || after.isNone

def Live.setContact (live : Live) (m : Mutation) (jid : Jid) (c : Contact) : Live where
  roster := live.roster.setContact jid c
  virtual :=
    if renewed m (live.roster.items.get jid) c.item then live.virtual.erase jid else live.virtual

/-- The user's own contacts after a change. -/
def ownAfter (own : Finset Jid) (m : Mutation) (jid : Jid) (before after : Option Item) :
    Finset Jid :=
  if after.isNone then own.erase jid
  else if renewed m before after then insert jid own
  else own

def change (g : Groups) (owner jid : Jid) (m : Mutation) (a : Account) : Account :=
  let loaded := loadRoster g owner a
  match m.edit (loaded.1.roster.contact jid) with
  | .keep _ => loaded.2
  | .save c =>
    let saved := saveRoster loaded.2.stored (loaded.1.setContact m jid c) jid
    { stored := saved.2
      session := a.session.map fun _ => saved.1
      own := ownAfter a.own m jid (loaded.1.roster.items.get jid) c.item }

/-- Pending requests from some addresses are dropped, and the whole roster is written. -/
def dropPending (g : Groups) (owner : Jid) (jids : Finset Jid) (a : Account) : Account :=
  let loaded := loadRoster g owner a
  let metadata := loaded.1.roster.metadata
  let saved := saveWholeRoster { loaded.1 with
    roster := { loaded.1.roster with
      metadata := { metadata with pending := metadata.pending \ jids } } }
  { loaded.2 with stored := saved.2, session := a.session.map fun _ => saved.1 }

inductive Input
  | load
  /-- A session begins, and with it the roster is shared. -/
  | login
  /-- The last session ends. -/
  | logout
  | change (jid : Jid) (m : Mutation)
  | dropPending (jids : Finset Jid)

/-- A client changes the roster of its session. -/
def step (g : Groups) (owner : Jid) (a : Account) : Input → Account
  | .load => (loadRoster g owner a).2
  | .login =>
    let loaded := loadRoster g owner a
    { loaded.2 with session := some loaded.1 }
  | .logout => { a with session := none }
  | .change jid m => if replaces m ∧ a.session.isNone then a else change g owner jid m a
  | .dropPending jids => dropPending g owner jids a

/-- The stored contacts are those that the user added and did not remove. -/
def Intact (owner : Jid) (a : Account) : Prop :=
  ∀ jid, jid ≠ owner → ((a.stored.items.get jid).isSome = true ↔ jid ∈ a.own)

/-- Nothing is written of a contact of the user's own that has the mark, unless its entry is made
anew. -/
def Careful (g : Groups) (owner : Jid) (a : Account) : Input → Prop
  | .change jid m =>
    jid ≠ owner → jid ∈ a.own → jid ∈ (loadRoster g owner a).1.virtual → replaces m = false →
      ∃ result, m.edit ((loadRoster g owner a).1.roster.contact jid) = .keep result
  | .dropPending _ =>
    ∀ jid, jid ≠ owner → jid ∈ a.own → jid ∉ (loadRoster g owner a).1.virtual
  | _ => True

/-! ## Rosters and the user's own contacts -/

section Rosters

variable {g : Groups} {owner jid : Jid} {live : Live} {own : Finset Jid} {stored : Stored}

/-- The user's own contacts are in the roster, and the others in it have the mark. -/
structure Agrees (owner : Jid) (live : Live) (own : Finset Jid) : Prop where
  own_listed : ∀ jid, jid ≠ owner → jid ∈ own → (live.roster.items.get jid).isSome = true
  listed_own : ∀ jid, jid ≠ owner → jid ∉ live.virtual →
    (live.roster.items.get jid).isSome = true → jid ∈ own

theorem Agrees.importJid (h : Agrees owner live own) (group : String)
    (entry : Jid × Option String) : Agrees owner (importJid owner group live entry) own := by
  unfold SharedGroups.importJid
  split_ifs
  · exact h
  · constructor
    · intro jid hother hown
      change ((live.roster.items.set _ _).get jid).isSome = true
      rw [Table.get_set]
      split_ifs
      · rfl
      · exact h.own_listed jid hother hown
    · intro jid hother hvirtual hlisted
      obtain ⟨hne, hvirtual⟩ := not_or.mp (fun hmem => hvirtual (Finset.mem_insert.mpr hmem))
      change ((live.roster.items.set _ _).get jid).isSome = true at hlisted
      rw [Table.get_set_of_ne _ hne] at hlisted
      exact h.listed_own jid hother hvirtual hlisted

theorem Agrees.importGroup (h : Agrees owner live own) (group : String) :
    Agrees owner (importJidsToRoster g owner live group) own := by
  unfold importJidsToRoster
  induction g.groups group generalizing live with
  | nil => exact h
  | cons entry entries ih => exact ih (h.importJid group entry)

theorem Agrees.importGroups (h : Agrees owner live own) (groups : List String) :
    Agrees owner (groups.foldl (importJidsToRoster g owner) live) own := by
  induction groups generalizing live with
  | nil => exact h
  | cons group groups ih => exact ih (h.importGroup group)

theorem Agrees.withVersion (h : Agrees owner live own) (version : Version) :
    Agrees owner (live.withVersion version) own := ⟨h.own_listed, h.listed_own⟩

theorem Agrees.inject (h : Agrees owner live own) :
    Agrees owner (injectRosterContacts g owner live) own := by
  unfold injectRosterContacts
  split_ifs
  · exact h
  · exact ((h.importGroups _).importGroups _).withVersion .unversioned

theorem saveRoster_same {jid : Jid} (hvirtual : live.virtual = ∅)
    (hsame : live.roster.items = stored.items) :
    (saveRoster stored live jid).2.items = stored.items := by
  change (if jid ∈ live.virtual then _ else stored.items.set jid (live.roster.items.get jid)) = _
  rw [hvirtual, if_neg (Finset.notMem_empty jid), hsame, Table.set_get_self]

/-- Other contacts are read as they were stored, and stay so. -/
theorem readRoster_spec (hother : jid ≠ owner) :
    (readRoster owner stored).1.roster.items.get jid = stored.items.get jid ∧
      (readRoster owner stored).2.items.get jid = stored.items.get jid ∧
      (readRoster owner stored).1.virtual = ∅ := by
  unfold readRoster
  simp only
  generalize hr : (if stored.legacyPending.isSome then
    saveRoster stored ⟨⟨stored.items, rosterMetadata stored none⟩, ∅⟩ "pending" else
    (⟨⟨stored.items, rosterMetadata stored none⟩, ∅⟩, stored)) = r
  have hread : r.1.roster.items = stored.items ∧ r.2.items = stored.items ∧ r.1.virtual = ∅ := by
    rw [← hr]
    split_ifs
    · exact ⟨rfl, saveRoster_same rfl rfl, rfl⟩
    · exact ⟨rfl, rfl, rfl⟩
  obtain ⟨hlive, hstored, hvirtual⟩ := hread
  split_ifs
  · refine ⟨?_, ?_, hvirtual⟩
    · change (r.1.roster.items.set owner none).get jid = _
      rw [Table.get_set_of_ne _ hother, hlive]
    · change (if owner ∈ r.1.virtual then _ else
        r.2.items.set owner ((r.1.roster.items.set owner none).get owner)).get jid = _
      rw [hvirtual, if_neg (Finset.notMem_empty owner), Table.get_set_of_ne _ hother, hstored]
  · exact ⟨by rw [hlive], by rw [hstored], hvirtual⟩

end Rosters

/-! ## Accounts -/

section Accounts

variable {g : Groups} {owner jid : Jid} {a : Account} {m : Mutation}

structure Inv (owner : Jid) (a : Account) : Prop where
  intact : Intact owner a
  session : ∀ live, a.session = some live → Agrees owner live a.own

theorem inv_start (stored : Stored) : Inv owner (start stored) := by
  refine ⟨fun jid _ => ?_, nofun⟩
  rw [start, Table.mem_keys, Option.isSome_iff_exists]

/-- Loading leaves everything as it is, but for what the roster of a new session is. -/
theorem Inv.load (h : Inv owner a) :
    Agrees owner (loadRoster g owner a).1 a.own ∧ Inv owner (loadRoster g owner a).2 ∧
      (loadRoster g owner a).2.own = a.own := by
  unfold loadRoster
  cases hsession : a.session with
  | some live => exact ⟨h.session live hsession, h, rfl⟩
  | none =>
    have hread : Agrees owner (readRoster owner a.stored).1 a.own := by
      constructor
      · intro jid hother hown
        rw [(readRoster_spec hother).1]
        exact (h.intact jid hother).mpr hown
      · intro jid hother _ hlisted
        rw [(readRoster_spec hother).1] at hlisted
        exact (h.intact jid hother).mp hlisted
    refine ⟨hread.inject, ⟨fun jid hother => ?_, nofun⟩, rfl⟩
    change ((readRoster owner a.stored).2.items.get jid).isSome = true ↔ jid ∈ a.own
    rw [(readRoster_spec hother).2.1]
    exact h.intact jid hother

/-- Only a removal leaves a contact without an entry. -/
theorem edit_isSome (hm : replaces m = false) {c c' : Contact} (hedit : m.edit c = .save c')
    (hc : c.item.isSome = true) : c'.item.isSome = true := by
  obtain ⟨item, hitem⟩ := Option.isSome_iff_exists.mp hc
  cases m with
  | addToRoster item' => exact absurd hm nofun
  | removeFromRoster => exact absurd hm nofun
  | processInboundSubscriptionApproval =>
    simp only [Mutation.edit, processInboundSubscriptionApproval, hitem] at hedit
    split_ifs at hedit
    all_goals exact Edit.save.inj hedit ▸ rfl
  | processInboundSubscriptionCancellation =>
    simp only [Mutation.edit, processInboundSubscriptionCancellation, hitem] at hedit
    split_ifs at hedit
    all_goals exact Edit.save.inj hedit ▸ rfl
  | processInboundUnsubscribe =>
    simp only [Mutation.edit, processInboundUnsubscribe, hitem] at hedit
    split_ifs at hedit
    all_goals exact Edit.save.inj hedit ▸ rfl
  | setContactPendingIn =>
    simp only [Mutation.edit, setContactPendingIn] at hedit
    split_ifs at hedit
    exact Edit.save.inj hedit ▸ hc
  | setContactPendingOut =>
    simp only [Mutation.edit, setContactPendingOut] at hedit
    split_ifs at hedit
    all_goals exact Edit.save.inj hedit ▸ rfl
  | unsubscribe =>
    simp only [Mutation.edit, unsubscribe, hitem] at hedit
    split_ifs at hedit
    all_goals exact Edit.save.inj hedit ▸ rfl
  | subscribed =>
    simp only [Mutation.edit, subscribed] at hedit
    split_ifs at hedit
    all_goals exact Edit.save.inj hedit ▸ rfl
  | unsubscribed =>
    simp only [Mutation.edit, unsubscribed, hitem] at hedit
    split_ifs at hedit
    all_goals exact Edit.save.inj hedit ▸ rfl
  | processOutboundSubscriptionRequest =>
    simp only [Mutation.edit, processOutboundSubscriptionRequest, hitem] at hedit
    split_ifs at hedit
    all_goals exact Edit.save.inj hedit ▸ rfl

variable {before after : Option Item}

theorem ownAfter_of_ne {own : Finset Jid} {jid' : Jid}
    (hne : jid' ≠ jid) : jid' ∈ ownAfter own m jid before after ↔ jid' ∈ own := by
  unfold ownAfter
  split_ifs
  · simp [hne]
  · simp [hne]
  · exact Iff.rfl

theorem setContact_virtual_of_ne {live : Live} {c : Contact} {jid' : Jid} (hne : jid' ≠ jid) :
    jid' ∈ (live.setContact m jid c).virtual ↔ jid' ∈ live.virtual := by
  unfold Live.setContact
  simp only
  split_ifs
  · simp [hne]
  · exact Iff.rfl

theorem saved_get (stored : Stored) (live : Live) (c : Contact) (jid' : Jid) :
    (saveRoster stored (live.setContact m jid c) jid).2.items.get jid' =
      if jid' = jid then if jid ∈ (live.setContact m jid c).virtual then none else c.item
      else stored.items.get jid' := by
  change (if jid ∈ (live.setContact m jid c).virtual then
    (stored.items.set jid ((live.roster.items.set jid c.item).get jid)).set jid none else
    stored.items.set jid ((live.roster.items.set jid c.item).get jid)).get jid' = _
  rw [Table.get_set_self]
  split_ifs with hvirtual hjid hjid
  · rw [hjid, Table.get_set_self]
  · rw [Table.get_set_of_ne _ hjid, Table.get_set_of_ne _ hjid]
  · rw [hjid, Table.get_set_self]
  · rw [Table.get_set_of_ne _ hjid]

/-- A contact that has been changed is the user's own if there is an entry that has been made anew,
or there was one before. -/
theorem mem_ownAfter {own : Finset Jid} : jid ∈ ownAfter own m jid before after ↔
      after.isSome = true ∧ (renewed m before after = true ∨ jid ∈ own) := by
  unfold ownAfter
  cases after with
  | none => simp
  | some item =>
    simp only [Option.isNone_some, Bool.false_eq_true, if_false, Option.isSome_some, true_and]
    split_ifs with hrenewed
    · simp [hrenewed]
    · simp [hrenewed]

theorem mem_setContact_virtual {live : Live} {c : Contact} :
    jid ∈ (live.setContact m jid c).virtual ↔
      renewed m (live.roster.items.get jid) c.item = false ∧ jid ∈ live.virtual := by
  unfold Live.setContact
  simp only
  split_ifs with hrenewed
  · simp [hrenewed]
  · simp [hrenewed]

theorem live_get (stored : Stored) (live : Live) (c : Contact) (jid' : Jid) :
    (saveRoster stored (live.setContact m jid c) jid).1.roster.items.get jid' =
      if jid' = jid then c.item else live.roster.items.get jid' :=
  Table.get_set live.roster.items jid jid' c.item

theorem renewed_false (h : renewed m before after = false) :
    replaces m = false ∧ before.isSome = true ∧ after.isSome = true := by
  unfold renewed at h
  cases hm : replaces m with
  | true =>
    rw [hm] at h
    exact absurd h nofun
  | false =>
    rw [hm] at h
    cases before with
    | none => exact absurd h nofun
    | some _ =>
      cases after with
      | none => exact absurd h nofun
      | some _ => exact ⟨rfl, rfl, rfl⟩

/-- What a change writes agrees with the user's own contacts. -/
theorem Inv.change (h : Inv owner a) (hcareful : Careful g owner a (.change jid m)) :
    Inv owner (change g owner jid m a) := by
  obtain ⟨hagrees, hloaded, hown⟩ := @Inv.load g owner a h
  unfold SharedGroups.change
  simp only
  cases hedit : m.edit ((loadRoster g owner a).1.roster.contact jid) with
  | keep result => exact hloaded
  | save c =>
    simp only
    have hkept : renewed m ((loadRoster g owner a).1.roster.items.get jid) c.item = false →
        jid ≠ owner → jid ∈ (loadRoster g owner a).1.virtual → jid ∉ a.own := by
      intro hrenewed hother hvirtual hmem
      obtain ⟨result, hkeep⟩ := hcareful hother hmem hvirtual (renewed_false hrenewed).1
      exact absurd (hedit.symm.trans hkeep) nofun
    have hlisted : renewed m ((loadRoster g owner a).1.roster.items.get jid) c.item = false →
        jid ≠ owner → jid ∉ (loadRoster g owner a).1.virtual → jid ∈ a.own :=
      fun hrenewed hother hvirtual =>
        hagrees.listed_own jid hother hvirtual (renewed_false hrenewed).2.1
    constructor
    · intro jid' hother
      simp only [saved_get]
      split_ifs with hjid hvirtual
      · subst hjid
        obtain ⟨hrenewed, hvirtual⟩ := mem_setContact_virtual.mp hvirtual
        rw [mem_ownAfter, hrenewed]
        simp [hkept hrenewed hother hvirtual]
      · subst hjid
        rw [mem_ownAfter]
        refine ⟨fun hsome => ⟨hsome, ?_⟩, And.left⟩
        cases hrenewed : renewed m ((loadRoster g owner a).1.roster.items.get jid') c.item with
        | true => exact .inl rfl
        | false =>
          exact .inr (hlisted hrenewed hother fun hmem =>
            hvirtual (mem_setContact_virtual.mpr ⟨hrenewed, hmem⟩))
      · rw [ownAfter_of_ne hjid, ← hown]
        exact hloaded.intact jid' hother
    · intro live hlive
      obtain ⟨-, -, rfl⟩ := Option.map_eq_some_iff.mp hlive
      constructor
      · intro jid' hother hmem
        rw [live_get]
        split_ifs with hjid
        · subst hjid
          exact (mem_ownAfter.mp hmem).1
        · exact hagrees.own_listed jid' hother ((ownAfter_of_ne hjid).mp hmem)
      · intro jid' hother hvirtual hsome
        change jid' ∉ ((loadRoster g owner a).1.setContact m jid c).virtual at hvirtual
        rw [live_get] at hsome
        split_ifs at hsome with hjid
        · subst hjid
          refine mem_ownAfter.mpr ⟨hsome, ?_⟩
          cases hrenewed : renewed m ((loadRoster g owner a).1.roster.items.get jid') c.item with
          | true => exact .inl rfl
          | false =>
            exact .inr (hlisted hrenewed hother fun hmem =>
              hvirtual (mem_setContact_virtual.mpr ⟨hrenewed, hmem⟩))
        · rw [setContact_virtual_of_ne hjid] at hvirtual
          exact (ownAfter_of_ne hjid).mpr (hagrees.listed_own jid' hother hvirtual hsome)

/-- A contact of the user's own is lost when it is written with the mark. -/
theorem careful_of_change (h : Inv owner a)
    (hintact : Intact owner (SharedGroups.change g owner jid m a)) :
    Careful g owner a (.change jid m) := by
  intro hother hmem hvirtual hreplaces
  obtain ⟨hagrees, -, -⟩ := @Inv.load g owner a h
  have hbefore := hagrees.own_listed jid hother hmem
  cases hedit : m.edit ((loadRoster g owner a).1.roster.contact jid) with
  | keep result => exact ⟨result, rfl⟩
  | save c =>
    have hafter := edit_isSome hreplaces hedit hbefore
    have hrenewed : renewed m ((loadRoster g owner a).1.roster.items.get jid) c.item = false := by
      unfold renewed
      rw [hreplaces, Option.isNone_eq_false_iff.mpr hbefore,
        Option.isNone_eq_false_iff.mpr hafter]
      rfl
    have hiff := hintact jid hother
    unfold SharedGroups.change at hiff
    simp only [hedit] at hiff
    rw [saved_get, if_pos rfl, if_pos (mem_setContact_virtual.mpr ⟨hrenewed, hvirtual⟩)] at hiff
    exact absurd (hiff.mpr (mem_ownAfter.mpr ⟨hafter, .inr hmem⟩)) (by simp)

theorem dropPending_get (jids : Finset Jid) :
    (SharedGroups.dropPending g owner jids a).stored.items.get jid =
      ((loadRoster g owner a).1.roster.items.filter
        fun jid _ => decide (jid ∉ (loadRoster g owner a).1.virtual)).get jid := rfl

theorem isSome_dropPending (jids : Finset Jid) :
    ((SharedGroups.dropPending g owner jids a).stored.items.get jid).isSome = true ↔
      ((loadRoster g owner a).1.roster.items.get jid).isSome = true ∧
        jid ∉ (loadRoster g owner a).1.virtual := by
  rw [dropPending_get, Table.get_filter]
  cases (loadRoster g owner a).1.roster.items.get jid with
  | none => simp
  | some item => simp [Option.filter]

theorem Inv.dropPending (h : Inv owner a) {jids : Finset Jid}
    (hcareful : Careful g owner a (.dropPending jids)) :
    Inv owner (dropPending g owner jids a) := by
  obtain ⟨hagrees, -, hown⟩ := @Inv.load g owner a h
  have hsame : (SharedGroups.dropPending g owner jids a).own = a.own := hown
  constructor
  · intro jid hother
    rw [isSome_dropPending, hsame]
    constructor
    · intro hlisted
      exact hagrees.listed_own jid hother hlisted.2 hlisted.1
    · intro hmem
      exact ⟨hagrees.own_listed jid hother hmem, hcareful jid hother hmem⟩
  · intro live hlive
    obtain ⟨-, -, rfl⟩ := Option.map_eq_some_iff.mp hlive
    rw [hsame]
    exact ⟨hagrees.own_listed, hagrees.listed_own⟩

theorem inv_step (a : Account) (i : Input) (h : Inv owner a) (hcareful : Careful g owner a i) :
    Inv owner (step g owner a i) := by
  obtain ⟨hagrees, hloaded, hown⟩ := @Inv.load g owner a h
  cases i with
  | load => exact hloaded
  | login =>
    refine ⟨hloaded.intact, fun live hlive => ?_⟩
    obtain rfl := Option.some.inj hlive
    change Agrees owner _ (loadRoster g owner a).2.own
    rw [hown]
    exact hagrees
  | logout => exact ⟨h.intact, nofun⟩
  | change jid m =>
    simp only [step]
    split_ifs
    · exact h
    · exact h.change hcareful
  | dropPending jids => exact h.dropPending hcareful

theorem careful_of_intact (a : Account) (i : Input) (h : Inv owner a)
    (hintact : Intact owner (step g owner a i)) : Careful g owner a i := by
  cases i with
  | load => trivial
  | login => trivial
  | logout => trivial
  | change jid m =>
    intro hother hmem hvirtual hreplaces
    have hstep : step g owner a (.change jid m) = SharedGroups.change g owner jid m a :=
      if_neg (by simp [hreplaces])
    rw [hstep] at hintact
    exact careful_of_change h hintact hother hmem hvirtual hreplaces
  | dropPending jids =>
    intro jid hother hmem
    obtain ⟨-, -, hown⟩ := @Inv.load g owner a h
    have hmem' : jid ∈ (SharedGroups.dropPending g owner jids a).own := by
      change jid ∈ (loadRoster g owner a).2.own
      rwa [hown]
    exact ((isSome_dropPending jids).mp ((hintact jid hother).mpr hmem')).2

/-- The store holds the user's own contacts and no others in a run if and only if none of them is
written with the mark of its group. -/
theorem intact_iff_careful (g : Groups) (owner : Jid) (stored : Stored) (inputs : List Input) :
    Machine.Always (step g owner) (Intact owner) (start stored) inputs ↔
      Machine.Guarded (step g owner) (Careful g owner) (start stored) inputs :=
  Machine.always_iff_guarded (fun _ h => h.intact) inv_step careful_of_intact (inv_start stored)
    inputs

def friends : Groups where
  groups := fun _ => [("a@example.org", none), ("b@example.org", none)]
  members := fun jid => if jid = some "a@example.org" then ["friends"] else []

/-- The user adds the other member, and later asks not to see it any more. -/
def requested : List Input :=
  [.login, .change "b@example.org" (.addToRoster Item.fresh), .logout,
    .change "b@example.org" .unsubscribe]

theorem member_is_lost :
    ¬ Machine.Always (step friends "a@example.org") (Intact "a@example.org")
      (start Stored.empty) requested := by
  intro h
  have hintact := Machine.always_iff.mp h requested List.prefix_rfl
  have hiff := hintact "b@example.org" (by decide)
  have hown : "b@example.org" ∈ (Machine.run (step friends "a@example.org")
      (start Stored.empty) requested).own := by decide +kernel
  have hstored : ((Machine.run (step friends "a@example.org") (start Stored.empty)
      requested).stored.items.get "b@example.org").isSome = false := by decide +kernel
  exact absurd (hstored.symm.trans (hiff.mpr hown)) nofun

end Accounts

end Prosody.SharedGroups
