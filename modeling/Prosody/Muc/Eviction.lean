import Prosody.Muc.RoundTrip
import Prosody.Util.Cache

/-! # Rooms that are swapped out

The cache of live rooms in `mod_muc.lua`: a room that has to make way for another one is written to
disk, and the next lookup restores it. Writes to disk may fail. -/

namespace Prosody.Muc

/-- A room with whether it is persistent. -/
structure TrackedRoom where
  room : Room
  persistent : Bool

structure StoredConfig where
  frozen : Room.Frozen
  persistent : Bool

/-- In which order tables are gone through, and the storage format. -/
structure Setup where
  env : Env
  order : KeyOrder String
  newFormat : Bool

structure Writes where
  listed : Bool
  config : Bool
  state : Bool
  deriving DecidableEq

/-- The cache of rooms, and the stores `persistent`, `config` and `state`. -/
structure Halls where
  rooms : UtilCache.Cache String TrackedRoom
  listed : String → Option Bool
  configs : String → Option StoredConfig
  states : String → Option (Table String Room.Saved)

/-- What a lookup returns: a room, `nil` or `false`. -/
inductive Lookup
  | room (r : TrackedRoom)
  | absent
  | refused

namespace Halls

variable (su : Setup) (w : Writes)

def frozenConfig (r : TrackedRoom) : StoredConfig := ⟨r.room.freeze su.newFormat, r.persistent⟩

def frozenState (r : TrackedRoom) : Table String Room.Saved := r.room.freezeState su.order

def restored (data : StoredConfig) (state : Option (Table String Room.Saved)) : TrackedRoom :=
  ⟨Room.restore su.env data.frozen state, data.persistent⟩

def write {ν : Type*} (ok : Bool) (store : String → Option ν) (jid : String) (v : Option ν) :
    String → Option ν :=
  if ok then Function.update store jid v else store

/-- `room_save`, with what it returns, which is nothing if there is nothing to do. -/
def roomSave (h : Halls) (jid : String) (r : TrackedRoom) (forced savestate : Bool) :
    Option Bool × Halls :=
  if r.persistent || savestate then
    (some w.config,
      { h with
        listed := write w.listed h.listed jid (some true)
        states := write w.state h.states jid (if savestate then some (frozenState su r) else none)
        configs := write w.config h.configs jid (some (frozenConfig su r)) })
  else if forced then
    (some w.config,
      { h with
        listed := write w.listed h.listed jid none
        states := write w.state h.states jid none
        configs := write w.config h.configs jid none })
  else (none, h)

/-- The callback of the cache: whether the room may go, and the stores. -/
def onEvict (h : Halls) (jid : String) (r : TrackedRoom) : Bool × Halls :=
  let (ok, h) := roomSave su w h jid r false true
  (ok == some true, h)

/-- `track_room`. The callback gets the entry that is the oldest one before. -/
def trackRoom (h : Halls) (jid : String) (r : TrackedRoom) : Bool × Halls :=
  let answering := .ask fun _ jid r => !(onEvict su w h jid r).1
  let (reply, rooms) := UtilCache.set { h.rooms with onEvict := answering } jid (some r)
  let h :=
    if rooms.calls = h.rooms.calls then h
    else
      match UtilCache.oldest h.rooms with
      | none => h
      | some (jid, r) => (onEvict su w h jid r).2
  (match reply with
    | .boolean b => b
    | _ => false, { h with rooms := rooms })

def restoreRoom (h : Halls) (jid : String) : Lookup × Halls :=
  match h.configs jid with
  | none => (.absent, h)
  | some data =>
    let r := restored su data (h.states jid)
    match trackRoom su w h jid r with
    | (true, h) => (.room r, { h with states := Function.update h.states jid none })
    | (false, h) => (.refused, h)

/-- `get_room_from_jid`. A room in the cache moves to the front. -/
def getRoomFromJid (h : Halls) (jid : String) : Lookup × Halls :=
  match UtilCache.get h.rooms jid with
  | some r => (.room r, (trackRoom su w h jid r).2)
  | none => restoreRoom su w h jid

/-- `forget_room` and `delete_room`. -/
def destroyRoom (h : Halls) (jid : String) : Halls :=
  { rooms := (UtilCache.set h.rooms jid none).2
    listed := Function.update h.listed jid none
    configs := Function.update h.configs jid none
    states := Function.update h.states jid none }

end Halls

/-! ## Runs -/

/-- The stores, how each room was left when it was last looked at, and which rooms have left the
cache, with the writes of that moment. -/
structure Hotel where
  halls : Halls
  seen : String → Option TrackedRoom
  left : List (String × Writes)

/-- A room that must not be lost: it has occupants or is persistent. -/
def TrackedRoom.Needed (r : TrackedRoom) : Prop := r.room.occupants ≠ ∅ ∨ r.persistent = true

instance (r : TrackedRoom) : Decidable r.Needed := inferInstanceAs (Decidable (_ ∨ _))

namespace Hotel

variable (su : Setup) (w : Writes)

/-- The oldest room, if it is no longer in the cache. -/
def departed (before after : Halls) : List (String × Writes) :=
  match UtilCache.oldest before.rooms with
  | none => []
  | some (jid, _) => if (UtilCache.get after.rooms jid).isNone then [(jid, w)] else []

/-- The cache tracks a new room. What there was under the same address ought to be there still. -/
def track (t : Hotel) (jid : String) (r : TrackedRoom) : Hotel :=
  let (ok, h) := Halls.trackRoom su w t.halls jid r
  let expected := match t.seen jid with
    | some old => if old.Needed then old else r
    | none => r
  { halls := h
    seen := if ok then Function.update t.seen jid (some expected) else t.seen
    left := t.left ++ departed w t.halls h }

def lookup (t : Hotel) (jid : String) : Lookup × Hotel :=
  let (found, h) := Halls.getRoomFromJid su w t.halls jid
  (found,
    { halls := h
      seen := match found with
        | .room r => Function.update t.seen jid (some r)
        | _ => t.seen
      left := t.left ++ departed w t.halls h })

/-- A new room, for the first presence or by `create_room`, which takes `false` for `nil`. -/
def create (wLookup : Writes) (checked : Bool) (t : Hotel) (jid : String) (r : TrackedRoom) :
    Hotel :=
  match lookup su wLookup t jid with
  | (.room _, t) => t
  | (.refused, t) => if checked then t else track su w t jid r
  | (.absent, t) => track su w t jid r

/-- A room is looked up and changed where it is, or destroyed. -/
def change (t : Hotel) (jid : String) (f : TrackedRoom → Option TrackedRoom) : Hotel :=
  match lookup su w t jid with
  | (.room r, t) =>
    match f r with
    | some r' =>
      { t with
        halls := { t.halls with rooms := (UtilCache.set t.halls.rooms jid (some r')).2 }
        seen := Function.update t.seen jid (some r') }
    | none =>
      { t with
        halls := t.halls.destroyRoom jid
        seen := Function.update t.seen jid none }
  | (_, t) => t

def save (t : Hotel) (jid : String) (forced : Bool) : Hotel :=
  match UtilCache.get t.halls.rooms jid with
  | none => t
  | some r => { t with halls := (Halls.roomSave su w t.halls jid r forced false).2 }

/-- Joins, parts and whatever else happens to a room are changes. -/
inductive Op
  | lookup (jid : String) (w : Writes)
  | create (jid : String) (r : TrackedRoom) (checked : Bool) (wLookup w : Writes)
  | change (jid : String) (f : TrackedRoom → Option TrackedRoom) (w : Writes)
  | save (jid : String) (forced : Bool) (w : Writes)

def step (t : Hotel) : Op → Hotel
  | .lookup jid w => (lookup su w t jid).2
  | .create jid r checked wLookup w => create su w wLookup checked t jid r
  | .change jid f w => change su w t jid f
  | .save jid forced w => save su w t jid forced

/-- An empty service with room for `size` rooms in its cache. -/
def start (size : ℕ+) : Hotel :=
  { halls :=
      { rooms := UtilCache.empty size .absent, listed := fun _ => none, configs := fun _ => none
        states := fun _ => none }
    seen := fun _ => none
    left := [] }

def good : Writes := ⟨true, true, true⟩

/-- No room that is needed is lost, and what has left the cache has been written. -/
structure Keeps (t : Hotel) : Prop where
  reachable : ∀ jid r, t.seen jid = some r → r.Needed →
    (Halls.getRoomFromJid su good t.halls jid).1 = .room r
  written : ∀ d ∈ t.left, d.2.config = true ∧ d.2.state = true

end Hotel

/-! ## What tracking a room does -/

namespace Halls

variable {su : Setup} {w : Writes} {h h' : Halls} {jid k : String} {r v : TrackedRoom}

def Full (h : Halls) : Prop := h.rooms.count = h.rooms.size

/-- Tracking a room as it shows in the cache and in the stores. -/
inductive TrackEffect (su : Setup) (w : Writes) (h : Halls) (jid : String) (r : TrackedRoom) :
    Bool → Halls → Prop
  | fits {h' : Halls} (hroom : UtilCache.get h.rooms jid ≠ none ∨ ¬h.Full)
      (hget : UtilCache.get h'.rooms = Function.update (UtilCache.get h.rooms) jid (some r))
      (hconfigs : h'.configs = h.configs) (hstates : h'.states = h.states) :
      TrackEffect su w h jid r true h'
  | evicts {h' : Halls} {k : String} {v : TrackedRoom} (hnew : UtilCache.get h.rooms jid = none)
      (hfull : h.Full) (holdest : UtilCache.oldest h.rooms = some (k, v))
      (hold : UtilCache.get h.rooms k = some v) (hwritten : w.config = true)
      (hget : UtilCache.get h'.rooms =
        Function.update (Function.update (UtilCache.get h.rooms) k none) jid (some r))
      (hconfigs : h'.configs = Function.update h.configs k (some (frozenConfig su v)))
      (hstates : h'.states = write w.state h.states k (some (frozenState su v))) :
      TrackEffect su w h jid r true h'
  | vetoed {h' : Halls} {k : String} {v : TrackedRoom} (hnew : UtilCache.get h.rooms jid = none)
      (hfull : h.Full) (holdest : UtilCache.oldest h.rooms = some (k, v))
      (hold : UtilCache.get h.rooms k = some v) (hwritten : w.config = false)
      (hrooms : ∃ n p, h'.rooms = { h.rooms with calls := n, onEvict := p })
      (hconfigs : h'.configs = h.configs)
      (hstates : h'.states = write w.state h.states k (some (frozenState su v))) :
      TrackEffect su w h jid r false h'

theorem onEvict_fst : (onEvict su w h k v).1 = w.config := by
  unfold onEvict roomSave
  simp

theorem onEvict_configs :
    (onEvict su w h k v).2.configs = write w.config h.configs k (some (frozenConfig su v)) := by
  unfold onEvict roomSave
  simp

theorem onEvict_states :
    (onEvict su w h k v).2.states = write w.state h.states k (some (frozenState su v)) := by
  unfold onEvict roomSave
  simp

theorem trackRoom_effect (su : Setup) (w : Writes) (hwf : UtilCache.Wellformed h.rooms)
    (jid : String) (r : TrackedRoom) :
    TrackEffect su w h jid r (trackRoom su w h jid r).1 (trackRoom su w h jid r).2 ∧
      UtilCache.Wellformed (trackRoom su w h jid r).2.rooms := by
  have hanswer : (fun (_ : ℕ) (jid : String) (r : TrackedRoom) => !(onEvict su w h jid r).1) =
      fun _ _ _ => !w.config := by
    funext _ jid r
    rw [onEvict_fst]
  obtain ⟨heffect, hwf'⟩ := UtilCache.set_effect hwf jid r (!w.config)
  have hrefused := @UtilCache.set_refused String TrackedRoom
    { h.rooms with onEvict := .ask fun _ _ _ => !w.config } jid _ (some r)
  unfold trackRoom
  dsimp only
  rw [hanswer]
  refine ⟨?_, hwf'⟩
  revert heffect hrefused
  generalize UtilCache.set { h.rooms with onEvict := .ask fun _ _ _ => !w.config } jid (some r) =
    result
  obtain ⟨reply, rooms⟩ := result
  intro heffect hrefused
  dsimp only at heffect hrefused ⊢
  generalize hget : UtilCache.get rooms = after at heffect
  generalize hcalls : rooms.calls = calls at heffect
  cases heffect with
  | fits hroom =>
    rw [if_pos rfl]
    exact .fits hroom hget rfl rfl
  | evicts hk hfull holdest hbefore hveto =>
    rw [if_neg (Nat.succ_ne_self _), holdest]
    have hwritten : w.config = true := by simpa using hveto
    refine .evicts hk hfull holdest hbefore hwritten hget ?_ onEvict_states
    refine onEvict_configs.trans ?_
    rw [hwritten]
    rfl
  | vetoed hk hfull holdest hbefore hveto =>
    rw [if_neg (Nat.succ_ne_self _), holdest]
    have hwritten : w.config = false := by simpa using hveto
    obtain ⟨n, hrooms⟩ := hrefused rfl
    refine .vetoed hk hfull holdest hbefore hwritten ⟨n, _, hrooms⟩ ?_ onEvict_states
    refine onEvict_configs.trans ?_
    rw [hwritten]
    rfl

end Halls

/-! ## What is kept -/

namespace Hotel

variable {su : Setup} {w : Writes} {t : Hotel} {h' : Halls} {jid : String} {r : TrackedRoom}

def inStores (su : Setup) (h : Halls) (jid : String) : Option TrackedRoom :=
  (h.configs jid).map fun data => Halls.restored su data (h.states jid)

/-- The room is as rooms come about, its occupants and their sessions are recognised when they are
read again, and nothing of it is left out. -/
structure Returns (su : Setup) (r : TrackedRoom) : Prop where
  freezable : r.room.Freezable
  named : r.room.Named
  recognised : r.room.Recognised
  fits : su.newFormat = true → r.room.FitsNewFormat

/-- Such a room is what freezing and restoring it gives. -/
theorem returns_iff (h : r.room.Freezable) : Returns su r ↔
    Halls.restored su (Halls.frozenConfig su r) (some (Halls.frozenState su r)) = r := by
  have hroom := h.restore_eq_iff su.env su.order su.newFormat
  constructor
  · intro hreturns
    unfold Halls.restored
    exact congrArg (fun room => TrackedRoom.mk room r.persistent)
      (hroom.mpr ⟨hreturns.named, hreturns.recognised, hreturns.fits⟩)
  · intro heq
    obtain ⟨hnamed, hrecognised, hfits⟩ := hroom.mp (congrArg TrackedRoom.room heq)
    exact ⟨h, hnamed, hrecognised, hfits⟩

/-- If the oldest room has to go, it is written as a whole, and can be read again. -/
def Spared (su : Setup) (w : Writes) (h : Halls) : Prop :=
  h.Full → ∀ jid r, UtilCache.oldest h.rooms = some (jid, r) → w.config = true →
    w.state = true ∧ (r.Needed → Returns su r)

/-- Rooms are in the cache as they were left, or else in the stores if they are needed. -/
structure Inv (su : Setup) (t : Hotel) : Prop where
  wf : UtilCache.Wellformed t.halls.rooms
  live : ∀ jid r, UtilCache.get t.halls.rooms jid = some r → t.seen jid = some r
  stored : ∀ jid r, UtilCache.get t.halls.rooms jid = none → t.seen jid = some r → r.Needed →
    inStores su t.halls jid = some r
  written : ∀ d ∈ t.left, d.2.config = true ∧ d.2.state = true

theorem inStores_congr {h h' : Halls} (hconfigs : h'.configs jid = h.configs jid)
    (hstates : h'.states jid = h.states jid) : inStores su h' jid = inStores su h jid := by
  unfold inStores
  rw [hconfigs, hstates]

theorem Inv.of_cached (hi : Inv su t) (jid : String)
    (hcached : UtilCache.get t.halls.rooms jid ≠ none) (hrooms : h'.rooms = t.halls.rooms)
    (hconfigs : ∀ jid', jid' ≠ jid → h'.configs jid' = t.halls.configs jid')
    (hstates : ∀ jid', jid' ≠ jid → h'.states jid' = t.halls.states jid') :
    Inv su { t with halls := h' } where
  wf := by
    rw [hrooms]
    exact hi.wf
  live := by
    intro jid' r' hget
    rw [hrooms] at hget
    exact hi.live jid' r' hget
  stored := by
    intro jid' r' hget hseen hneeded
    rw [hrooms] at hget
    have hne : jid' ≠ jid := fun heq => hcached (heq ▸ hget)
    rw [inStores_congr (hconfigs jid' hne) (hstates jid' hne)]
    exact hi.stored jid' r' hget hseen hneeded
  written := hi.written

variable {k : String} {v : TrackedRoom}

theorem departed_of_get {before after : Halls}
    (holdest : UtilCache.oldest before.rooms = some (k, v)) : departed w before after =
      if (UtilCache.get after.rooms k).isNone then [(k, w)] else [] := by
  unfold departed
  rw [holdest]

theorem get_oldest {h : Halls} (hwf : UtilCache.Wellformed h.rooms)
    (holdest : UtilCache.oldest h.rooms = some (k, v)) : UtilCache.get h.rooms k = some v := by
  obtain ⟨policy, l, hl⟩ := hwf
  rw [hl.oldest_eq] at holdest
  rw [hl.get_eq]
  obtain ⟨refs, hstands⟩ := hl
  unfold UtilCache.Lru.get
  rw [UtilCache.find?_of_mem hstands.sound.nodup (List.mem_of_getLast? holdest)]
  rfl

theorem departed_eq_nil {before after : Halls} (hwf : UtilCache.Wellformed before.rooms)
    (hget : ∀ k, UtilCache.get before.rooms k ≠ none → UtilCache.get after.rooms k ≠ none) :
    departed w before after = [] := by
  unfold departed
  cases holdest : UtilCache.oldest before.rooms with
  | none => rfl
  | some entry =>
    obtain ⟨k, v⟩ := entry
    have hstill := hget k (by rw [get_oldest hwf holdest]; exact Option.some_ne_none v)
    dsimp only
    rw [if_neg (by simpa using hstill)]

open Halls in
/-- A room that is tracked is in the cache, and one that makes way for it is in the stores. -/
theorem Inv.tracked (hi : Inv su t) (hwf : UtilCache.Wellformed h'.rooms)
    (heffect : TrackEffect su w t.halls jid r true h')
    (hspared : UtilCache.get t.halls.rooms jid = none → Spared su w t.halls) :
    Inv su
      { halls := h'
        seen := Function.update t.seen jid (some r)
        left := t.left ++ departed w t.halls h' } := by
  cases heffect with
  | fits hroom hget hconfigs hstates =>
    have hnobody : departed w t.halls h' = [] := departed_eq_nil hi.wf fun k hk => by
      rw [hget, Function.update_apply]
      split_ifs
      · exact Option.some_ne_none r
      · exact hk
    refine ⟨hwf, ?_, ?_, ?_⟩
    · intro jid' r' hlive
      dsimp only at hlive ⊢
      rw [hget, Function.update_apply] at hlive
      rw [Function.update_apply]
      split_ifs at hlive ⊢
      · exact hlive
      · exact hi.live jid' r' hlive
    · intro jid' r' hgone hseen hneeded
      dsimp only at hgone hseen ⊢
      rw [hget, Function.update_apply] at hgone
      rw [Function.update_apply] at hseen
      split_ifs at hgone hseen
      rw [inStores_congr (congrFun hconfigs jid') (congrFun hstates jid')]
      exact hi.stored jid' r' hgone hseen hneeded
    · rw [hnobody, List.append_nil]
      exact hi.written
  | @evicts _ k v hnew hfull holdest hold hwritten hget hconfigs hstates =>
    obtain ⟨hstate, hreturns⟩ := hspared hnew hfull k v holdest hwritten
    have hne : k ≠ jid := fun heq => by
      rw [heq, hnew] at hold
      cases hold
    have hstates' : h'.states = Function.update t.halls.states k (some (frozenState su v)) := by
      rw [hstates, hstate]
      rfl
    refine ⟨hwf, ?_, ?_, ?_⟩
    · intro jid' r' hlive
      dsimp only at hlive ⊢
      rw [hget, Function.update_apply] at hlive
      rw [Function.update_apply]
      split_ifs at hlive ⊢
      · exact hlive
      · rw [Function.update_apply] at hlive
        split_ifs at hlive
        exact hi.live jid' r' hlive
    · intro jid' r' hgone hseen hneeded
      dsimp only at hgone hseen ⊢
      rw [hget, Function.update_apply] at hgone
      rw [Function.update_apply] at hseen
      split_ifs at hgone hseen
      by_cases hk : jid' = k
      · subst hk
        rw [hi.live jid' v hold] at hseen
        obtain rfl := Option.some.inj hseen
        unfold inStores
        rw [hconfigs, hstates', Function.update_self, Function.update_self, Option.map_some]
        have hreturns := hreturns hneeded
        exact congrArg some ((returns_iff hreturns.freezable).mp hreturns)
      · rw [Function.update_of_ne hk] at hgone
        have hstores : inStores su h' jid' = inStores su t.halls jid' :=
          inStores_congr (by rw [hconfigs, Function.update_of_ne hk])
            (by rw [hstates', Function.update_of_ne hk])
        rw [hstores]
        exact hi.stored jid' r' hgone hseen hneeded
    · have hleft : departed w t.halls h' = [(k, w)] := by
        rw [departed_of_get holdest, hget, Function.update_of_ne hne, Function.update_self]
        rfl
      rw [hleft]
      intro d hd
      obtain hd | hd := List.mem_append.mp hd
      · exact hi.written d hd
      · rw [List.mem_singleton.mp hd]
        exact ⟨hwritten, hstate⟩

open Halls in
theorem Inv.vetoed (hi : Inv su t) (hwf : UtilCache.Wellformed h'.rooms)
    (heffect : TrackEffect su w t.halls jid r false h') :
    Inv su { halls := h', seen := t.seen, left := t.left ++ departed w t.halls h' } := by
  cases heffect with
  | @vetoed _ k v hnew hfull holdest hold hwritten hrooms hconfigs hstates =>
    obtain ⟨n, p, hrooms⟩ := hrooms
    have hget : UtilCache.get h'.rooms = UtilCache.get t.halls.rooms := by
      rw [hrooms]
      rfl
    have hnobody : departed w t.halls h' = [] := departed_eq_nil hi.wf fun k hk => by
      rw [hget]
      exact hk
    refine ⟨hwf, ?_, ?_, ?_⟩
    · intro jid' r' hlive
      dsimp only at hlive ⊢
      rw [hget] at hlive
      exact hi.live jid' r' hlive
    · intro jid' r' hgone hseen hneeded
      dsimp only at hgone hseen ⊢
      rw [hget] at hgone
      have hne : jid' ≠ k := fun heq => by
        rw [heq, hold] at hgone
        cases hgone
      have hstate : h'.states jid' = t.halls.states jid' := by
        rw [hstates]
        unfold write
        split_ifs
        · rw [Function.update_of_ne hne]
        · rfl
      rw [inStores_congr (congrFun hconfigs jid') hstate]
      exact hi.stored jid' r' hgone hseen hneeded
    · rw [hnobody, List.append_nil]
      exact hi.written

/-! ### Lookups -/

open Halls in
theorem TrackEffect.get_self {h h' : Halls} (heffect : TrackEffect su w h jid r true h') :
    UtilCache.get h'.rooms jid = some r := by
  cases heffect with
  | fits hroom hget => rw [hget, Function.update_self]
  | evicts hnew hfull holdest hold hwritten hget => rw [hget, Function.update_self]

/-- What a lookup leaves behind. -/
inductive LookupEffect (su : Setup) (w : Writes) (t : Hotel) (jid : String) : Lookup → Hotel → Prop
  | found {r : TrackedRoom} {t' : Hotel} (hget : UtilCache.get t'.halls.rooms jid = some r)
      (hstores : UtilCache.get t.halls.rooms jid = some r ∨
        UtilCache.get t.halls.rooms jid = none ∧ inStores su t.halls jid = some r ∧
          (t.halls.Full → w.config = true)) :
      LookupEffect su w t jid (.room r) t'
  | absent {t' : Hotel} (hget : UtilCache.get t.halls.rooms jid = none)
      (hconfigs : t.halls.configs jid = none) (hhalls : t'.halls = t.halls)
      (hseen : t'.seen = t.seen) : LookupEffect su w t jid .absent t'
  | refused {t' : Hotel} (hget : UtilCache.get t.halls.rooms jid = none)
      (hconfigs : t.halls.configs jid ≠ none) (hfull : t.halls.Full) (hwritten : w.config = false)
      (hrooms : ∃ n p, t'.halls.rooms = { t.halls.rooms with calls := n, onEvict := p })
      (hseen : t'.seen = t.seen) : LookupEffect su w t jid .refused t'

/-- If restoring a room drives out another one, that one is spared. -/
def SafeLookup (su : Setup) (w : Writes) (h : Halls) (jid : String) : Prop :=
  UtilCache.get h.rooms jid = none → h.configs jid ≠ none → Spared su w h

theorem lookup_spec (su : Setup) (w : Writes) (jid : String)
    (hwf : UtilCache.Wellformed t.halls.rooms) :
    LookupEffect su w t jid (lookup su w t jid).1 (lookup su w t jid).2 ∧
      UtilCache.Wellformed (lookup su w t jid).2.halls.rooms := by
  unfold lookup Halls.getRoomFromJid
  cases hget : UtilCache.get t.halls.rooms jid with
  | some r =>
    obtain ⟨heffect, hwf'⟩ := Halls.trackRoom_effect su w hwf jid r
    refine ⟨.found ?_ (.inl hget), hwf'⟩
    dsimp only
    revert heffect
    generalize Halls.trackRoom su w t.halls jid r = result
    obtain ⟨ok, h'⟩ := result
    intro heffect
    cases ok with
    | true => exact TrackEffect.get_self heffect
    | false =>
      cases heffect with
      | vetoed hnew =>
        rw [hget] at hnew
        cases hnew
  | none =>
    dsimp only
    unfold Halls.restoreRoom
    cases hconfigs : t.halls.configs jid with
    | none => exact ⟨.absent hget hconfigs rfl rfl, hwf⟩
    | some data =>
      obtain ⟨heffect, hwf'⟩ := Halls.trackRoom_effect su w hwf jid
        (Halls.restored su data (t.halls.states jid))
      dsimp only
      revert heffect hwf'
      generalize Halls.trackRoom su w t.halls jid
        (Halls.restored su data (t.halls.states jid)) = result
      obtain ⟨ok, h'⟩ := result
      intro heffect hwf'
      cases ok with
      | true =>
        have hself := TrackEffect.get_self heffect
        refine ⟨.found hself (.inr ⟨hget, ?_, ?_⟩), hwf'⟩
        · unfold inStores
          rw [hconfigs]
          rfl
        · intro hfull
          cases heffect with
          | fits hroom =>
            obtain hroom | hroom := hroom
            · exact absurd hget hroom
            · exact absurd hfull hroom
          | evicts _ _ _ _ hwritten => exact hwritten
      | false =>
        cases heffect with
        | vetoed hnew hfull holdest hold hwritten hrooms =>
          have hne : t.halls.configs jid ≠ none := by
            rw [hconfigs]
            exact Option.some_ne_none data
          exact ⟨.refused hget hne hfull hwritten hrooms rfl, hwf'⟩

theorem Inv.lookup (hi : Inv su t) (w : Writes) (jid : String)
    (hsafe : SafeLookup su w t.halls jid) :
    Inv su (Hotel.lookup su w t jid).2 := by
  unfold Hotel.lookup Halls.getRoomFromJid
  cases hget : UtilCache.get t.halls.rooms jid with
  | some r =>
    obtain ⟨heffect, hwf⟩ := Halls.trackRoom_effect su w hi.wf jid r
    dsimp only
    revert heffect hwf
    generalize Halls.trackRoom su w t.halls jid r = result
    obtain ⟨ok, h'⟩ := result
    intro heffect hwf
    cases ok with
    | true =>
      exact hi.tracked hwf heffect fun hnone => by
        rw [hget] at hnone
        cases hnone
    | false =>
      cases heffect with
      | vetoed hnew =>
        rw [hget] at hnew
        cases hnew
  | none =>
    dsimp only
    unfold Halls.restoreRoom
    cases hconfigs : t.halls.configs jid with
    | none =>
      have hnobody : departed w t.halls t.halls = [] := departed_eq_nil hi.wf fun _ hk => hk
      dsimp only
      rw [hnobody, List.append_nil]
      exact hi
    | some data =>
      obtain ⟨heffect, hwf⟩ := Halls.trackRoom_effect su w hi.wf jid
        (Halls.restored su data (t.halls.states jid))
      have hne : t.halls.configs jid ≠ none := by
        rw [hconfigs]
        exact Option.some_ne_none data
      dsimp only
      revert heffect hwf
      generalize Halls.trackRoom su w t.halls jid
        (Halls.restored su data (t.halls.states jid)) = result
      obtain ⟨ok, h'⟩ := result
      intro heffect hwf
      cases ok with
      | true =>
        have htracked := hi.tracked hwf heffect fun _ => hsafe hget hne
        refine htracked.of_cached jid ?_ rfl (fun _ _ => rfl) ?_
        · rw [TrackEffect.get_self heffect]
          exact Option.some_ne_none _
        · intro jid' hjid'
          exact Function.update_of_ne hjid' _ _
      | false => exact hi.vetoed hwf heffect

theorem Inv.keeps (hi : Inv su t) : Keeps su t where
  reachable := by
    intro jid r hseen hneeded
    obtain ⟨heffect, -⟩ := lookup_spec su good jid hi.wf
    have hfound : (Halls.getRoomFromJid su good t.halls jid).1 = (Hotel.lookup su good t jid).1 :=
      rfl
    rw [hfound]
    revert heffect
    generalize (Hotel.lookup su good t jid).2 = t'
    generalize (Hotel.lookup su good t jid).1 = found
    intro heffect
    cases heffect with
    | found _ hstores =>
      obtain hlive | ⟨hgone, hstores, -⟩ := hstores
      · rw [hi.live _ _ hlive] at hseen
        rw [Option.some.inj hseen]
      · rw [hi.stored jid r hgone hseen hneeded] at hstores
        rw [Option.some.inj hstores]
    | absent hget hconfigs =>
      have hstores := hi.stored jid r hget hseen hneeded
      unfold inStores at hstores
      rw [hconfigs] at hstores
      cases hstores
    | refused hget hconfigs hfull hwritten => cases hwritten
  written := hi.written

theorem inStores_of_found (hwf : UtilCache.Wellformed t.halls.rooms)
    (hgone : UtilCache.get t.halls.rooms jid = none)
    (hfound : (Halls.getRoomFromJid su good t.halls jid).1 = .room r) :
    inStores su t.halls jid = some r := by
  obtain ⟨heffect, -⟩ := lookup_spec su good jid hwf
  have hsame : (Hotel.lookup su good t jid).1 = .room r := hfound
  rw [hsame] at heffect
  cases heffect with
  | found _ hstores =>
    obtain hlive | ⟨-, hstores, -⟩ := hstores
    · rw [hgone] at hlive
      cases hlive
    · exact hstores

/-! ### Rooms that have been driven out -/

/-- The room `v` has left the cache with these writes. -/
structure Evicted (su : Setup) (w : Writes) (t : Hotel) (k : String) (v : TrackedRoom) : Prop where
  left : (k, w) ∈ t.left
  seen : t.seen k = some v
  gone : UtilCache.get t.halls.rooms k = none
  configs : t.halls.configs k = some (Halls.frozenConfig su v)
  states : w.state = true → t.halls.states k = some (Halls.frozenState su v)

theorem Evicted.spared (h : Evicted su w t k v) (hkeeps : Keeps su t)
    (hwf : UtilCache.Wellformed t.halls.rooms) (hv : v.room.Freezable) :
    w.state = true ∧ (v.Needed → Returns su v) := by
  have hstate := (hkeeps.written _ h.left).2
  refine ⟨hstate, fun hneeded => ?_⟩
  have hstores := inStores_of_found hwf h.gone (hkeeps.reachable k v h.seen hneeded)
  unfold inStores at hstores
  rw [h.configs, h.states hstate, Option.map_some] at hstores
  exact (returns_iff hv).mpr (Option.some.inj hstores)

open Halls in
theorem TrackEffect.evicted {seen : String → Option TrackedRoom} {x : Option TrackedRoom}
    {ok : Bool} (hi : Inv su t) (heffect : TrackEffect su w t.halls jid r ok h')
    (hnew : UtilCache.get t.halls.rooms jid = none) (hfull : t.halls.Full)
    (holdest : UtilCache.oldest t.halls.rooms = some (k, v)) (hwritten : w.config = true)
    (hseen : seen = Function.update t.seen jid x) : ok = true ∧ k ≠ jid ∧
      Evicted su w { halls := h', seen := seen, left := t.left ++ departed w t.halls h' } k v := by
  have hold := get_oldest hi.wf holdest
  have hne : k ≠ jid := fun heq => by
    rw [heq, hnew] at hold
    cases hold
  cases heffect with
  | fits hroom =>
    obtain hroom | hroom := hroom
    · exact absurd hnew hroom
    · exact absurd hfull hroom
  | vetoed _ _ _ _ hwritten' =>
    rw [hwritten] at hwritten'
    cases hwritten'
  | evicts _ _ holdest' _ _ hget hconfigs hstates =>
    obtain ⟨rfl, rfl⟩ := Prod.mk.inj (Option.some.inj (holdest.symm.trans holdest'))
    have hgone : UtilCache.get h'.rooms k = none := by
      rw [hget, Function.update_of_ne hne, Function.update_self]
    refine ⟨rfl, hne, ?_, ?_, hgone, ?_, ?_⟩
    · rw [departed_of_get holdest, hgone]
      exact List.mem_append_right _ (List.mem_singleton_self _)
    · rw [hseen]
      exact (Function.update_of_ne hne _ _).trans (hi.live k v hold)
    · rw [hconfigs, Function.update_self]
    · intro hstate
      rw [hstates, hstate]
      exact Function.update_self ..

theorem track_evicted (hi : Inv su t)
    (hnew : UtilCache.get t.halls.rooms jid = none) (hfull : t.halls.Full)
    (holdest : UtilCache.oldest t.halls.rooms = some (k, v)) (hwritten : w.config = true) :
    Evicted su w (track su w t jid r) k v := by
  obtain ⟨heffect, -⟩ := Halls.trackRoom_effect su w hi.wf jid r
  unfold track
  dsimp only
  revert heffect
  generalize Halls.trackRoom su w t.halls jid r = result
  obtain ⟨ok, h'⟩ := result
  intro heffect
  obtain ⟨rfl, -, hevicted⟩ := TrackEffect.evicted hi heffect hnew hfull holdest hwritten rfl
  exact hevicted

theorem lookup_evicted (hi : Inv su t)
    (hnew : UtilCache.get t.halls.rooms jid = none) (hconfigs : t.halls.configs jid ≠ none)
    (hfull : t.halls.Full) (holdest : UtilCache.oldest t.halls.rooms = some (k, v))
    (hwritten : w.config = true) : k ≠ jid ∧ (∃ r, (lookup su w t jid).1 = .room r) ∧
      Evicted su w (lookup su w t jid).2 k v := by
  unfold lookup Halls.getRoomFromJid
  rw [hnew]
  dsimp only
  unfold Halls.restoreRoom
  cases hdata : t.halls.configs jid with
  | none => exact absurd hdata hconfigs
  | some data =>
    obtain ⟨heffect, -⟩ := Halls.trackRoom_effect su w hi.wf jid
      (Halls.restored su data (t.halls.states jid))
    dsimp only
    revert heffect
    generalize Halls.trackRoom su w t.halls jid
      (Halls.restored su data (t.halls.states jid)) = result
    obtain ⟨ok, h'⟩ := result
    intro heffect
    obtain ⟨rfl, hne, hevicted⟩ :=
      TrackEffect.evicted hi heffect hnew hfull holdest hwritten rfl
    refine ⟨hne, ⟨_, rfl⟩, hevicted.left, hevicted.seen, hevicted.gone, hevicted.configs, ?_⟩
    intro hstate
    exact (Function.update_of_ne hne _ _).trans (hevicted.states hstate)

/-- Where a room has to go, another one is tracked only if that room has been written. -/
theorem trackRoom_of_full (hwf : UtilCache.Wellformed t.halls.rooms)
    (hnew : UtilCache.get t.halls.rooms jid = none) (hfull : t.halls.Full) :
    (Halls.trackRoom su w t.halls jid r).1 = w.config := by
  obtain ⟨heffect, -⟩ := Halls.trackRoom_effect su w hwf jid r
  revert heffect
  generalize Halls.trackRoom su w t.halls jid r = result
  obtain ⟨ok, h'⟩ := result
  intro heffect
  cases heffect with
  | fits hroom =>
    obtain hroom | hroom := hroom
    · exact absurd hnew hroom
    · exact absurd hfull hroom
  | evicts _ _ _ _ hwritten => exact hwritten.symm
  | vetoed _ _ _ _ hwritten => exact hwritten.symm

/-! ### Runs in which nothing is lost -/

/-- A room in the stores cannot be restored because the oldest room cannot be written. -/
def Refuses (w : Writes) (h : Halls) (jid : String) : Prop :=
  UtilCache.get h.rooms jid = none ∧ h.configs jid ≠ none ∧ h.Full ∧ w.config = false

/-- The room does not take the place of another one that is needed. -/
def Genuine (t : Hotel) (jid : String) (r : TrackedRoom) : Prop :=
  ∀ old, t.seen jid = some old → old.Needed → r = old

/-- Whoever has to go is spared, and nobody takes the place of a room that is refused. -/
def Fits (su : Setup) (t : Hotel) : Op → Prop
  | .lookup jid w => SafeLookup su w t.halls jid
  | .change jid _ w => SafeLookup su w t.halls jid
  | .create jid r checked wLookup w =>
    SafeLookup su wLookup t.halls jid ∧
    (UtilCache.get t.halls.rooms jid = none → t.halls.configs jid = none →
      Spared su w t.halls) ∧
    (checked = false → Refuses wLookup t.halls jid →
      Spared su w t.halls ∧ (w.config = true → Genuine t jid r))
  | .save .. => True

theorem Inv.track (hi : Inv su t)
    (hspared : UtilCache.get t.halls.rooms jid = none → Spared su w t.halls)
    (hgenuine : (Halls.trackRoom su w t.halls jid r).1 = true → Genuine t jid r) :
    Inv su (Hotel.track su w t jid r) := by
  obtain ⟨heffect, hwf⟩ := Halls.trackRoom_effect su w hi.wf jid r
  unfold Hotel.track
  dsimp only
  revert heffect hwf hgenuine
  generalize Halls.trackRoom su w t.halls jid r = result
  obtain ⟨ok, h'⟩ := result
  intro hgenuine heffect hwf
  cases ok with
  | false => exact hi.vetoed hwf heffect
  | true =>
    have hexpected : (match t.seen jid with
        | some old => if old.Needed then old else r
        | none => r) = r := by
      cases hseen : t.seen jid with
      | none => rfl
      | some old =>
        dsimp only
        split_ifs with hneeded
        · exact (hgenuine rfl old hseen hneeded).symm
        · rfl
    dsimp only
    rw [hexpected]
    exact hi.tracked hwf heffect hspared

theorem Inv.change (hi : Inv su t) (f : TrackedRoom → Option TrackedRoom)
    (hsafe : SafeLookup su w t.halls jid) : Inv su (Hotel.change su w t jid f) := by
  have hlookup := hi.lookup _ _ hsafe
  obtain ⟨heffect, -⟩ := lookup_spec su w jid hi.wf
  unfold Hotel.change
  revert hlookup heffect
  generalize Hotel.lookup su w t jid = result
  obtain ⟨found, t'⟩ := result
  intro hi' heffect
  dsimp only at hi' heffect
  cases heffect with
  | absent => exact hi'
  | refused => exact hi'
  | @found r _ hget =>
    dsimp only
    cases f r with
    | some r' =>
      have hpresent : UtilCache.get t'.halls.rooms jid ≠ none := by
        rw [hget]
        exact Option.some_ne_none r
      obtain ⟨hget', hwf⟩ := UtilCache.set_present_effect hi'.wf hpresent r'
      refine ⟨hwf, ?_, ?_, hi'.written⟩
      · intro jid' r'' hlive
        dsimp only at hlive ⊢
        rw [hget', Function.update_apply] at hlive
        rw [Function.update_apply]
        split_ifs at hlive ⊢
        · exact hlive
        · exact hi'.live jid' r'' hlive
      · intro jid' r'' hgone hseen hneeded
        dsimp only at hgone hseen
        rw [hget', Function.update_apply] at hgone
        rw [Function.update_apply] at hseen
        split_ifs at hgone hseen
        exact hi'.stored jid' r'' hgone hseen hneeded
    | none =>
      obtain ⟨hget', hwf⟩ := UtilCache.set_none_effect hi'.wf jid
      refine ⟨hwf, ?_, ?_, hi'.written⟩
      · intro jid' r'' hlive
        dsimp only [Halls.destroyRoom] at hlive ⊢
        rw [hget', Function.update_apply] at hlive
        rw [Function.update_apply]
        split_ifs at hlive ⊢
        exact hi'.live jid' r'' hlive
      · intro jid' r'' hgone hseen hneeded
        dsimp only [Halls.destroyRoom] at hgone hseen ⊢
        rw [hget', Function.update_apply] at hgone
        rw [Function.update_apply] at hseen
        split_ifs at hgone hseen with hjid
        have hstores : inStores su (Halls.destroyRoom t'.halls jid) jid' =
            inStores su t'.halls jid' :=
          inStores_congr (Function.update_of_ne hjid _ _) (Function.update_of_ne hjid _ _)
        exact hstores.trans (hi'.stored jid' r'' hgone hseen hneeded)

theorem write_of_ne {ν : Type*} {ok : Bool} {store : String → Option ν} {jid' : String}
    (hne : jid' ≠ jid) (x : Option ν) : Halls.write ok store jid x jid' = store jid' := by
  unfold Halls.write
  split_ifs
  · exact Function.update_of_ne hne _ _
  · rfl

theorem Inv.save (hi : Inv su t) (forced : Bool) : Inv su (Hotel.save su w t jid forced) := by
  unfold Hotel.save
  cases hget : UtilCache.get t.halls.rooms jid with
  | none => exact hi
  | some r =>
    have hne : UtilCache.get t.halls.rooms jid ≠ none := by
      rw [hget]
      exact Option.some_ne_none r
    dsimp only
    unfold Halls.roomSave
    by_cases hpersistent : (r.persistent || false) = true
    · rw [if_pos hpersistent]
      exact hi.of_cached jid hne rfl (fun _ h => write_of_ne h _) fun _ h => write_of_ne h _
    · rw [if_neg hpersistent]
      split_ifs
      · exact hi.of_cached jid hne rfl (fun _ h => write_of_ne h _) fun _ h => write_of_ne h _
      · exact hi

theorem same_rooms {h h' : Halls}
    (hrooms : ∃ n p, h'.rooms = { h.rooms with calls := n, onEvict := p }) :
    UtilCache.get h'.rooms = UtilCache.get h.rooms ∧
      UtilCache.oldest h'.rooms = UtilCache.oldest h.rooms ∧ (h'.Full ↔ h.Full) := by
  obtain ⟨n, p, hrooms⟩ := hrooms
  unfold Halls.Full
  rw [hrooms]
  exact ⟨rfl, rfl, Iff.rfl⟩

theorem Spared.congr {h h' : Halls}
    (hrooms : ∃ n p, h'.rooms = { h.rooms with calls := n, onEvict := p })
    (hspared : Spared su w h) : Spared su w h' := by
  obtain ⟨-, holdest, hfull⟩ := same_rooms hrooms
  exact fun hfull' k v holdest' => hspared (hfull.mp hfull') k v (holdest ▸ holdest')

theorem Inv.create {wLookup : Writes} {checked : Bool} (hi : Inv su t)
    (hfits : Fits su t (.create jid r checked wLookup w)) :
    Inv su (Hotel.create su w wLookup checked t jid r) := by
  obtain ⟨hsafe, hnew, hunchecked⟩ := hfits
  have hlookup := hi.lookup _ _ hsafe
  obtain ⟨heffect, -⟩ := lookup_spec su wLookup jid hi.wf
  unfold Hotel.create
  revert hlookup heffect
  generalize Hotel.lookup su wLookup t jid = result
  obtain ⟨found, t'⟩ := result
  intro hi' heffect
  dsimp only at hi' heffect
  cases heffect with
  | found => exact hi'
  | absent hget hconfigs hhalls hseen =>
    have hsparedNew := hnew hget hconfigs
    rw [← hhalls] at hsparedNew
    refine hi'.track (fun _ => hsparedNew) fun _ old hold hneeded => ?_
    have hstores := hi'.stored jid old (by rw [hhalls]; exact hget) hold hneeded
    unfold inStores at hstores
    rw [hhalls, hconfigs] at hstores
    cases hstores
  | refused hget hconfigs hfull hwritten hrooms hseen =>
    dsimp only
    split_ifs with hchecked
    · exact hi'
    · obtain ⟨hspared, hgenuine⟩ :=
        hunchecked (by simpa using hchecked) ⟨hget, hconfigs, hfull, hwritten⟩
      refine hi'.track (fun _ => hspared.congr hrooms) fun htracked old hold hneeded => ?_
      obtain ⟨hget', -, hfull'⟩ := same_rooms hrooms
      rw [trackRoom_of_full hi'.wf (hget' ▸ hget) (hfull'.mpr hfull)] at htracked
      rw [hseen] at hold
      exact hgenuine htracked old hold hneeded

theorem Inv.step {op : Op} (hi : Inv su t) (hfits : Fits su t op) :
    Inv su (Hotel.step su t op) := by
  cases op with
  | lookup jid w => exact hi.lookup w jid hfits
  | create jid r checked wLookup w => exact hi.create hfits
  | change jid f w => exact hi.change f hfits
  | save jid forced w => exact hi.save forced

/-! ### Rooms under their own addresses -/

/-- A room as rooms come about, with this address. -/
def Own (jid : String) (r : TrackedRoom) : Prop := r.room.jid = jid ∧ r.room.Freezable

/-- New rooms are put under their own address, and what happens to a room leaves it one. -/
def Op.Lawful : Op → Prop
  | .lookup .. => True
  | .create jid r .. => Own jid r
  | .change jid f _ => ∀ r r', Own jid r → f r = some r' → Own jid r'
  | .save .. => True

/-- The cache and the stores have rooms under their own addresses only. -/
structure Sane (su : Setup) (h : Halls) : Prop where
  rooms : ∀ jid r, UtilCache.get h.rooms jid = some r → Own jid r
  configs : ∀ jid data, h.configs jid = some data →
    ∃ r, Own jid r ∧ data = Halls.frozenConfig su r
  states : ∀ jid state, h.states jid = some state →
    ∃ r, Own jid r ∧ state = Halls.frozenState su r

/-- A write to a store of what is made of own rooms. -/
theorem own_write {ν : Type*} {f : TrackedRoom → ν} {store : String → Option ν} (ok : Bool)
    (hstore : ∀ y, store k = some y → ∃ r, Own k r ∧ y = f r) (hr : Own jid r) {x : Option ν}
    (hx : ∀ y, x = some y → y = f r) (y : ν)
    (h : Halls.write ok store jid x k = some y) : ∃ r, Own k r ∧ y = f r := by
  unfold Halls.write at h
  split_ifs at h
  · rw [Function.update_apply] at h
    split_ifs at h with hk
    · exact ⟨r, hk ▸ hr, hx y h⟩
    · exact hstore y h
  · exact hstore y h

open Halls in
theorem Sane.track {h : Halls} {ok : Bool} (hs : Sane su h)
    (heffect : TrackEffect su w h jid r ok h') (hr : Own jid r) : Sane su h' := by
  cases heffect with
  | fits _ hget hconfigs hstates =>
    refine ⟨fun jid' r' hlive => ?_, hconfigs ▸ hs.configs, hstates ▸ hs.states⟩
    rw [hget, Function.update_apply] at hlive
    split_ifs at hlive with hjid
    · exact hjid ▸ Option.some.inj hlive ▸ hr
    · exact hs.rooms jid' r' hlive
  | @evicts _ k v _ _ _ hold _ hget hconfigs hstates =>
    have hv := hs.rooms k v hold
    refine ⟨fun jid' r' hlive => ?_, fun jid' data hdata => ?_, fun jid' state hstate => ?_⟩
    · rw [hget, Function.update_apply] at hlive
      split_ifs at hlive with hjid
      · exact hjid ▸ Option.some.inj hlive ▸ hr
      · rw [Function.update_apply] at hlive
        split_ifs at hlive
        exact hs.rooms jid' r' hlive
    · rw [hconfigs] at hdata
      exact own_write true (hs.configs jid') hv (fun _ hx => (Option.some.inj hx).symm) data hdata
    · rw [hstates] at hstate
      exact own_write w.state (hs.states jid') hv (fun _ hx => (Option.some.inj hx).symm) state hstate
  | @vetoed _ k v _ _ _ hold _ hrooms hconfigs hstates =>
    have hv := hs.rooms k v hold
    obtain ⟨n, p, hrooms⟩ := hrooms
    refine ⟨fun jid' r' hlive => ?_, hconfigs ▸ hs.configs, fun jid' state hstate => ?_⟩
    · rw [hrooms] at hlive
      exact hs.rooms jid' r' hlive
    · rw [hstates] at hstate
      exact own_write w.state (hs.states jid') hv (fun _ hx => (Option.some.inj hx).symm) state hstate

/-- What is read from the stores is a room with its own address. -/
theorem Sane.restored {h : Halls} (hs : Sane su h) {data : StoredConfig}
    (hdata : h.configs jid = some data) : Own jid (Halls.restored su data (h.states jid)) := by
  obtain ⟨r, ⟨rfl, hr⟩, rfl⟩ := hs.configs jid data hdata
  cases hstate : h.states r.room.jid with
  | none => exact ⟨rfl, hr.restoredConfig su.env su.newFormat⟩
  | some state =>
    obtain ⟨r', ⟨hjid, hr'⟩, rfl⟩ := hs.states r.room.jid state hstate
    exact ⟨(Room.sameConfig_saveRestored su.env.order _ _ _).jid,
      hr.restored hr' hjid.symm su.env su.order su.newFormat⟩

theorem Sane.lookup (hs : Sane su t.halls) (hwf : UtilCache.Wellformed t.halls.rooms)
    (w : Writes) (jid : String) : Sane su (Hotel.lookup su w t jid).2.halls ∧
      ∀ r, (Hotel.lookup su w t jid).1 = .room r → Own jid r := by
  unfold Hotel.lookup Halls.getRoomFromJid
  cases hget : UtilCache.get t.halls.rooms jid with
  | some r =>
    have hr := hs.rooms jid r hget
    obtain ⟨heffect, -⟩ := Halls.trackRoom_effect su w hwf jid r
    refine ⟨hs.track heffect hr, ?_⟩
    rintro _ ⟨⟩
    exact hr
  | none =>
    dsimp only
    unfold Halls.restoreRoom
    cases hconfigs : t.halls.configs jid with
    | none => exact ⟨hs, nofun⟩
    | some data =>
      have hr := hs.restored hconfigs
      obtain ⟨heffect, -⟩ := Halls.trackRoom_effect su w hwf jid
        (Halls.restored su data (t.halls.states jid))
      dsimp only
      revert heffect
      generalize Halls.trackRoom su w t.halls jid
        (Halls.restored su data (t.halls.states jid)) = result
      obtain ⟨ok, h'⟩ := result
      intro heffect
      have hs' := hs.track heffect hr
      cases ok with
      | false => exact ⟨hs', nofun⟩
      | true =>
        refine ⟨⟨hs'.rooms, hs'.configs, fun jid' state hstate => ?_⟩, ?_⟩
        · exact own_write true (hs'.states jid') hr (fun _ hx => by cases hx) state hstate
        · rintro _ ⟨⟩
          exact hr

theorem Sane.change (hs : Sane su t.halls) (hwf : UtilCache.Wellformed t.halls.rooms)
    {f : TrackedRoom → Option TrackedRoom} (hf : ∀ r r', Own jid r → f r = some r' → Own jid r') :
    Sane su (Hotel.change su w t jid f).halls := by
  obtain ⟨hs', hown⟩ := hs.lookup hwf w jid
  obtain ⟨heffect, hwf'⟩ := lookup_spec su w jid hwf
  unfold Hotel.change
  revert hs' hown heffect hwf'
  generalize Hotel.lookup su w t jid = result
  obtain ⟨found, t'⟩ := result
  intro hs' hown heffect hwf'
  dsimp only at hs' hown heffect hwf'
  cases heffect with
  | absent => exact hs'
  | refused => exact hs'
  | @found r _ hget =>
    dsimp only
    cases hchanged : f r with
    | some r' =>
      have hpresent : UtilCache.get t'.halls.rooms jid ≠ none := by
        rw [hget]
        exact Option.some_ne_none r
      obtain ⟨hget', -⟩ := UtilCache.set_present_effect hwf' hpresent r'
      refine ⟨fun jid' r'' hlive => ?_, hs'.configs, hs'.states⟩
      dsimp only at hlive
      rw [hget', Function.update_apply] at hlive
      split_ifs at hlive with hjid
      · exact hjid ▸ Option.some.inj hlive ▸ hf r r' (hown r rfl) hchanged
      · exact hs'.rooms jid' r'' hlive
    | none =>
      have hr := hown r rfl
      obtain ⟨hget', -⟩ := UtilCache.set_none_effect hwf' jid
      refine ⟨fun jid' r'' hlive => ?_, fun jid' data hdata => ?_, fun jid' state hstate => ?_⟩
      · dsimp only [Halls.destroyRoom] at hlive
        rw [hget', Function.update_apply] at hlive
        split_ifs at hlive
        exact hs'.rooms jid' r'' hlive
      · exact own_write true (hs'.configs jid') hr (fun _ hx => by cases hx) data hdata
      · exact own_write true (hs'.states jid') hr (fun _ hx => by cases hx) state hstate

theorem Sane.save (hs : Sane su t.halls) (forced : Bool) :
    Sane su (Hotel.save su w t jid forced).halls := by
  unfold Hotel.save
  cases hget : UtilCache.get t.halls.rooms jid with
  | none => exact hs
  | some r =>
    have hr := hs.rooms jid r hget
    dsimp only
    unfold Halls.roomSave
    by_cases hpersistent : (r.persistent || false) = true
    · rw [if_pos hpersistent]
      exact ⟨hs.rooms,
        fun k => own_write w.config (hs.configs k) hr fun _ hx => (Option.some.inj hx).symm,
        fun k => own_write w.state (hs.states k) hr fun _ hx => by cases hx⟩
    · rw [if_neg hpersistent]
      split_ifs
      · exact ⟨hs.rooms, fun k => own_write w.config (hs.configs k) hr (fun _ hx => by cases hx),
          fun k => own_write w.state (hs.states k) hr fun _ hx => by cases hx⟩
      · exact hs

theorem Sane.create {wLookup : Writes} {checked : Bool} (hs : Sane su t.halls)
    (hwf : UtilCache.Wellformed t.halls.rooms) (hr : Own jid r) :
    Sane su (Hotel.create su w wLookup checked t jid r).halls := by
  have htrack : ∀ t' : Hotel, Sane su t'.halls → UtilCache.Wellformed t'.halls.rooms →
      Sane su (Hotel.track su w t' jid r).halls := fun t' hs' hwf' =>
    hs'.track (Halls.trackRoom_effect su w hwf' jid r).1 hr
  obtain ⟨hs', -⟩ := hs.lookup hwf wLookup jid
  obtain ⟨-, hwf'⟩ := lookup_spec su wLookup jid hwf
  unfold Hotel.create
  revert hs' hwf'
  generalize Hotel.lookup su wLookup t jid = result
  obtain ⟨found, t'⟩ := result
  intro hs' hwf'
  cases found with
  | room r' => exact hs'
  | absent => exact htrack t' hs' hwf'
  | refused =>
    dsimp only
    split_ifs
    · exact hs'
    · exact htrack t' hs' hwf'

theorem Sane.step {op : Op} (hs : Sane su t.halls) (hwf : UtilCache.Wellformed t.halls.rooms)
    (hlawful : op.Lawful) : Sane su (Hotel.step su t op).halls := by
  cases op with
  | lookup jid w => exact (hs.lookup hwf w jid).1
  | create jid r checked wLookup w => exact hs.create hwf hlawful
  | change jid f w => exact hs.change hwf hlawful
  | save jid forced w => exact hs.save forced

/-! ### Only in those -/

theorem wf_track (hwf : UtilCache.Wellformed t.halls.rooms) :
    UtilCache.Wellformed (track su w t jid r).halls.rooms :=
  (Halls.trackRoom_effect su w hwf jid r).2

theorem change_evicted (hwf : UtilCache.Wellformed t.halls.rooms)
    (hne : k ≠ jid) (f : TrackedRoom → Option TrackedRoom)
    (hevicted : Evicted su w (lookup su w t jid).2 k v) :
    Evicted su w (change su w t jid f) k v := by
  obtain ⟨heffect, hwf'⟩ := lookup_spec su w jid hwf
  unfold change
  revert hevicted heffect hwf'
  generalize lookup su w t jid = result
  obtain ⟨found, t'⟩ := result
  intro hevicted heffect hwf'
  dsimp only at hevicted heffect hwf'
  cases heffect with
  | absent => exact hevicted
  | refused => exact hevicted
  | @found r _ hget =>
    dsimp only
    cases f r with
    | some r' =>
      have hpresent : UtilCache.get t'.halls.rooms jid ≠ none := by
        rw [hget]
        exact Option.some_ne_none r
      obtain ⟨hget', -⟩ := UtilCache.set_present_effect hwf' hpresent r'
      refine ⟨hevicted.left, ?_, ?_, hevicted.configs, hevicted.states⟩
      · exact (Function.update_of_ne hne _ _).trans hevicted.seen
      · dsimp only
        rw [hget', Function.update_of_ne hne]
        exact hevicted.gone
    | none =>
      obtain ⟨hget', -⟩ := UtilCache.set_none_effect hwf' jid
      refine ⟨hevicted.left, ?_, ?_, ?_, fun hstate => ?_⟩
      · exact (Function.update_of_ne hne _ _).trans hevicted.seen
      · dsimp only [Halls.destroyRoom]
        rw [hget', Function.update_of_ne hne]
        exact hevicted.gone
      · exact (Function.update_of_ne hne _ _).trans hevicted.configs
      · exact (Function.update_of_ne hne _ _).trans (hevicted.states hstate)

theorem wf_change (hwf : UtilCache.Wellformed t.halls.rooms)
    (f : TrackedRoom → Option TrackedRoom) :
    UtilCache.Wellformed (change su w t jid f).halls.rooms := by
  obtain ⟨heffect, hwf'⟩ := lookup_spec su w jid hwf
  unfold change
  revert heffect hwf'
  generalize lookup su w t jid = result
  obtain ⟨found, t'⟩ := result
  intro heffect hwf'
  dsimp only at heffect hwf'
  cases heffect with
  | absent => exact hwf'
  | refused => exact hwf'
  | @found r _ hget =>
    dsimp only
    cases f r with
    | some r' =>
      refine (UtilCache.set_present_effect hwf' ?_ r').2
      rw [hget]
      exact Option.some_ne_none r
    | none => exact (UtilCache.set_none_effect hwf' jid).2

theorem found_of_live (hget : UtilCache.get t.halls.rooms jid = some r) :
    (Halls.getRoomFromJid su w t.halls jid).1 = .room r := by
  unfold Halls.getRoomFromJid
  rw [hget]

theorem genuine_of_keeps (hwf : UtilCache.Wellformed t.halls.rooms)
    (htracked : (Halls.trackRoom su w t.halls jid r).1 = true)
    (hkeeps : Keeps su (track su w t jid r)) : Genuine t jid r := by
  intro old hold hneeded
  obtain ⟨heffect, -⟩ := Halls.trackRoom_effect su w hwf jid r
  rw [htracked] at heffect
  have hlive : UtilCache.get (track su w t jid r).halls.rooms jid = some r :=
    TrackEffect.get_self heffect
  have hseen : (track su w t jid r).seen jid = some old := by
    unfold track
    dsimp only
    rw [htracked, if_pos rfl, Function.update_self, hold]
    dsimp only
    rw [if_pos hneeded]
  have hfound := hkeeps.reachable jid old hseen hneeded
  rw [found_of_live hlive] at hfound
  exact Lookup.room.inj hfound

theorem Sane.oldest {h : Halls} (hs : Sane su h) (hwf : UtilCache.Wellformed h.rooms)
    (holdest : UtilCache.oldest h.rooms = some (k, v)) : v.room.Freezable :=
  (hs.rooms k v (get_oldest hwf holdest)).2

section Create

variable {wLookup : Writes} {checked : Bool}

theorem create_of_found (hfound : (lookup su wLookup t jid).1 = .room r') :
    create su w wLookup checked t jid r = (lookup su wLookup t jid).2 := by
  unfold create
  revert hfound
  generalize lookup su wLookup t jid = result
  obtain ⟨found, t'⟩ := result
  rintro rfl
  rfl

theorem create_of_absent (hwf : UtilCache.Wellformed t.halls.rooms)
    (hget : UtilCache.get t.halls.rooms jid = none) (hconfigs : t.halls.configs jid = none) :
    ∃ t', t' = (lookup su wLookup t jid).2 ∧ t'.halls = t.halls ∧
      create su w wLookup checked t jid r = track su w t' jid r := by
  obtain ⟨heffect, -⟩ := lookup_spec su wLookup jid hwf
  unfold create
  revert heffect
  generalize lookup su wLookup t jid = result
  obtain ⟨found, t'⟩ := result
  intro heffect
  dsimp only at heffect
  cases heffect with
  | found _ hstores =>
    obtain hlive | ⟨-, hstores, -⟩ := hstores
    · rw [hget] at hlive
      cases hlive
    · unfold inStores at hstores
      rw [hconfigs] at hstores
      cases hstores
  | refused _ hconfigs' => exact absurd hconfigs hconfigs'
  | absent _ _ hhalls => exact ⟨t', rfl, hhalls, rfl⟩

theorem create_of_refused (hwf : UtilCache.Wellformed t.halls.rooms)
    (hrefuses : Refuses wLookup t.halls jid) :
    ∃ t', t' = (lookup su wLookup t jid).2 ∧ t'.seen = t.seen ∧
      (∃ n p, t'.halls.rooms = { t.halls.rooms with calls := n, onEvict := p }) ∧
      create su w wLookup false t jid r = track su w t' jid r := by
  obtain ⟨hget, hconfigs, hfull, hrefused⟩ := hrefuses
  obtain ⟨heffect, -⟩ := lookup_spec su wLookup jid hwf
  unfold create
  revert heffect
  generalize lookup su wLookup t jid = result
  obtain ⟨found, t'⟩ := result
  intro heffect
  dsimp only at heffect
  cases heffect with
  | found _ hstores =>
    obtain hlive | ⟨-, -, hwritten⟩ := hstores
    · rw [hget] at hlive
      cases hlive
    · rw [hwritten hfull] at hrefused
      cases hrefused
  | absent _ hconfigs' => exact absurd hconfigs' hconfigs
  | refused _ _ _ _ hrooms hseen => exact ⟨t', rfl, hseen, hrooms, rfl⟩

/-- A new room that the stores do not have takes the place of one that is spared. -/
theorem spared_of_absent (hi : Inv su t) (hs : Sane su t.halls)
    (hkeeps : Keeps su (create su w wLookup checked t jid r))
    (hget : UtilCache.get t.halls.rooms jid = none) (hconfigs : t.halls.configs jid = none) :
    Spared su w t.halls := by
  intro hfull k v holdest hwritten
  have hi' := hi.lookup wLookup jid fun _ hne => absurd hconfigs hne
  obtain ⟨t', rfl, hhalls, hcreate⟩ := create_of_absent hi.wf hget hconfigs
  have hv := hs.oldest hi.wf holdest
  rw [hcreate] at hkeeps
  rw [← hhalls] at hget hfull holdest
  exact (track_evicted hi' hget hfull holdest hwritten).spared hkeeps (wf_track hi'.wf) hv

/-- So does one that the stores have and that could not be restored, which it must not replace. -/
theorem spared_of_refused (hi : Inv su t) (hs : Sane su t.halls)
    (hkeeps : Keeps su (create su w wLookup false t jid r))
    (hrefuses : Refuses wLookup t.halls jid) :
    Spared su w t.halls ∧ (w.config = true → Genuine t jid r) := by
  have ⟨hget, _, hfull, hrefused⟩ := hrefuses
  have hi' := hi.lookup wLookup jid fun _ _ _ _ _ _ hwritten => by
    rw [hrefused] at hwritten
    cases hwritten
  obtain ⟨t', rfl, hseen, hrooms, hcreate⟩ := create_of_refused hi.wf hrefuses
  rw [hcreate] at hkeeps
  obtain ⟨hsame, hsameOldest, hsameFull⟩ := same_rooms hrooms
  rw [← hsame] at hget
  refine ⟨?_, ?_⟩
  · intro _ k v holdest hwritten
    exact (track_evicted hi' hget (hsameFull.mpr hfull) (hsameOldest ▸ holdest) hwritten).spared
      hkeeps (wf_track hi'.wf) (hs.oldest hi.wf holdest)
  · intro hwritten
    have htracked : (Halls.trackRoom su w (lookup su wLookup t jid).2.halls jid r).1 = true :=
      (trackRoom_of_full hi'.wf hget (hsameFull.mpr hfull)).trans hwritten
    have hgenuine := genuine_of_keeps hi'.wf htracked hkeeps
    unfold Genuine at hgenuine ⊢
    rw [← hseen]
    exact hgenuine

theorem fits_of_keeps_create (hi : Inv su t) (hs : Sane su t.halls)
    (hkeeps : Keeps su (create su w wLookup checked t jid r)) :
    Fits su t (.create jid r checked wLookup w) := by
  refine ⟨?_, spared_of_absent hi hs hkeeps, ?_⟩
  · intro hget hconfigs hfull k v holdest hwritten
    obtain ⟨-, ⟨r', hfound⟩, hevicted⟩ := lookup_evicted hi hget hconfigs hfull holdest hwritten
    rw [create_of_found hfound] at hkeeps
    exact hevicted.spared hkeeps (lookup_spec su wLookup jid hi.wf).2 (hs.oldest hi.wf holdest)
  · rintro rfl hrefuses
    exact spared_of_refused hi hs hkeeps hrefuses

end Create

theorem Inv.fits_of_keeps {op : Op} (hi : Inv su t) (hs : Sane su t.halls)
    (hkeeps : Keeps su (Hotel.step su t op)) : Fits su t op := by
  cases op with
  | lookup jid w =>
    intro hget hconfigs hfull k v holdest hwritten
    obtain ⟨-, -, hevicted⟩ := lookup_evicted hi hget hconfigs hfull holdest hwritten
    exact hevicted.spared hkeeps (lookup_spec su w _ hi.wf).2 (hs.oldest hi.wf holdest)
  | create jid r checked wLookup w => exact fits_of_keeps_create hi hs hkeeps
  | change jid f w =>
    intro hget hconfigs hfull k v holdest hwritten
    obtain ⟨hne, -, hevicted⟩ := lookup_evicted hi hget hconfigs hfull holdest hwritten
    exact (change_evicted hi.wf hne f hevicted).spared hkeeps (wf_change hi.wf f)
      (hs.oldest hi.wf holdest)
  | save jid forced w => exact trivial

theorem inv_start (size : ℕ+) : Inv su (start size) := by
  have hholds := UtilCache.holds_empty (K := String) (V := TrackedRoom) .absent size.pos
  refine ⟨⟨_, _, hholds⟩, ?_, ?_, ?_⟩
  · intro jid r hget
    cases hget
  · intro jid r _ hseen
    cases hseen
  · intro d hd
    cases hd

theorem sane_start (size : ℕ+) : Sane su (start size).halls where
  rooms _ _ hget := by cases hget
  configs _ _ hdata := by cases hdata
  states _ _ hstate := by cases hstate

/-- No room is ever lost if every room that leaves the cache is written as a whole and is one that
comes back as it was, and no new room takes the place of one that could not be restored. Where rooms
are as they come about, none is lost only then. -/
theorem nothing_lost_iff (su : Setup) (size : ℕ+) (ops : List Op) :
    (Machine.Guarded (step su) (Fits su) (start size) ops →
      Machine.Always (step su) (Keeps su) (start size) ops) ∧
    (Machine.Guarded (step su) (fun _ op => op.Lawful) (start size) ops →
      (Machine.Always (step su) (Keeps su) (start size) ops ↔
        Machine.Guarded (step su) (Fits su) (start size) ops)) := by
  constructor
  · intro hfits
    exact (Machine.always_of_guarded (P := Inv su) (fun _ _ => Inv.step) (inv_start size)
      hfits).mono fun _ => Inv.keeps
  · intro hlawful
    refine Machine.always_iff_guarded_of_legal (P := fun t => Inv su t ∧ Sane su t.halls)
      (fun _ h => h.1.keeps) ?_ ?_ ⟨inv_start size, sane_start size⟩ hlawful
    · rintro t op ⟨hi, hs⟩ hop hfits
      exact ⟨hi.step hfits, hs.step hi.wf hop⟩
    · rintro t op ⟨hi, hs⟩ - hkeeps
      exact hi.fits_of_keeps hs hkeeps

/-! ### A room with an occupant makes way for another one -/

def plainSetup : Setup := ⟨Room.ascending, Room.ascending.order, false⟩

def garden : TrackedRoom := ⟨NickRoom.orchard.room, false⟩

def crypt : TrackedRoom := ⟨Room.new "crypt@verona" false false, false⟩

/-- The second room drives out the first one, with these writes. -/
def twoRooms (w : Writes) : List Op :=
  [.create "garden@verona" garden true good good, .create "crypt@verona" crypt true good w]

theorem garden_returns : Returns plainSetup garden where
  freezable := NickRoom.orchard_reached.freezable
  named := by
    have hnamed : ∀ n ∈ garden.room.occupants.keys, (Jid.split n).any fun parts =>
        ¬(parts.node = none ∧ Room.underscored parts = true) ∧
          Room.isNickOf garden.room.jid parts = true := by
      decide +kernel
    intro n o ho
    obtain ⟨parts, hsplit, hnick⟩ :=
      (Option.any_eq_true _ _).mp (hnamed n ((Table.mem_keys _ _).mpr ⟨o, ho⟩))
    exact ⟨parts, hsplit, of_decide_eq_true hnick⟩
  recognised := NickRoom.orchard_reached.freezable.toStorable.recognised
    NickRoom.orchard_noUnderscore
  fits hnew := by cases hnew

theorem garden_oldest : UtilCache.oldest
    (step plainSetup (start 1) (.create "garden@verona" garden true good good)).halls.rooms =
      some ("garden@verona", garden) := rfl

/-- The room is written as a whole. -/
theorem nothing_lost_garden :
    Machine.Always (step plainSetup) (Keeps plainSetup) (start 1) (twoRooms good) := by
  refine (nothing_lost_iff plainSetup 1 (twoRooms good)).1 ⟨⟨?_, ?_, ?_⟩, ⟨?_, ?_, ?_⟩, trivial⟩
  · exact fun _ hstored => absurd rfl hstored
  · exact fun _ _ hfull => absurd hfull Nat.zero_ne_one
  · exact fun hchecked => by cases hchecked
  · exact fun _ hstored => absurd rfl hstored
  · intro _ _ _ k v holdest _
    rw [garden_oldest] at holdest
    obtain ⟨-, rfl⟩ := Prod.mk.inj (Option.some.inj holdest)
    exact ⟨rfl, fun _ => garden_returns⟩
  · exact fun hchecked => by cases hchecked

/-- The state of the room is not written. -/
def unwritten : Writes := ⟨true, true, false⟩

def occupied : Lookup → Bool
  | .room r => r.room.occupants ≠ ∅
  | _ => false

theorem garden_empty :
    occupied (Halls.getRoomFromJid plainSetup good
      (Machine.run (step plainSetup) (start 1) (twoRooms unwritten)).halls "garden@verona").1 =
        false := by
  decide +kernel

theorem garden_seen :
    (Machine.run (step plainSetup) (start 1) (twoRooms unwritten)).seen "garden@verona" =
      some garden := rfl

/-- The room is found without its occupant. -/
theorem occupant_lost :
    ¬Machine.Always (step plainSetup) (Keeps plainSetup) (start 1) (twoRooms unwritten) := by
  intro h
  have hkeeps := Machine.always_iff.mp h (twoRooms unwritten) List.prefix_rfl
  have hneeded : garden.Needed := by decide +kernel
  have hfound := hkeeps.reachable _ _ garden_seen hneeded
  have hempty := garden_empty
  rw [hfound] at hempty
  revert hempty
  decide +kernel

end Hotel

end Prosody.Muc
