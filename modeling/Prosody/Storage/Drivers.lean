import Prosody.Library.Keyed
import Prosody.Library.Runs
import Prosody.Storage.Deletion

/-! # The two drivers side by side

An archive kept in memory and the same archive kept in files, through appends and deletions. The
keys that the drivers make up go by the same name on both sides. -/

namespace Prosody.Archive

variable {τ β : Type*} [LinearOrder τ] {dates : Internal.Dates τ}

structure Stores (τ β : Type*) where
  memory : Option (Memory τ β)
  internal : List (Item τ β)

namespace Stores

inductive Op (τ β : Type*) where
  | append (key : Option String) (id : String) (value : Stanza β) (when : τ)
      (withJid : Option String)
  | delete (q : Query τ)

def init : Stores τ β := { memory := none, internal := [] }

/-- The table that the memory driver works on. -/
def table (s : Stores τ β) : Memory τ β := s.memory.getD Memory.empty

def step (dates : Internal.Dates τ) (s : Stores τ β) : Op τ β → Stores τ β
  | .append key id value when withJid =>
    -- an error leaves the table as it is
    { memory := (Memory.append s.memory key id value when withJid).or s.memory
      internal := Internal.append dates s.internal key id value when withJid }
  | .delete q =>
    { memory := (Memory.delete q s.memory).1
      internal := (Internal.delete q s.internal).1 }

/-- A key that is made up is not in use. -/
def Fresh (s : Stores τ β) : Op τ β → Prop
  | .append none id _ _ _ =>
    s.table.slot id = .empty ∧ ∀ item ∈ s.table.items, item.key ≠ some id
  | _ => True

/-- What is found under a key leads to the item with the key, or nowhere if there is none. -/
def Leads (items : List (Item τ β)) (key : String) : Memory.Slot → Prop
  | .empty => ∀ item ∈ items, item.key ≠ some key
  | .index i => 0 < i ∧ (items[i - 1]?).any fun item => item.key = some key
  | .method => False

instance (items : List (Item τ β)) (key : String) :
    (slot : Memory.Slot) → Decidable (Leads items key slot)
  | .empty => inferInstanceAs (Decidable (∀ item ∈ items, item.key ≠ some key))
  | .index i =>
    inferInstanceAs (Decidable (0 < i ∧ (items[i - 1]?).any fun item => item.key = some key))
  | .method => inferInstanceAs (Decidable False)

def Located (a : Memory τ β) (key : String) : Prop := Leads a.items key (a.slot key)

instance (a : Memory τ β) (key : String) : Decidable (Located a key) :=
  inferInstanceAs (Decidable (Leads a.items key (a.slot key)))

omit [LinearOrder τ] in
theorem Located.index {a : Memory τ β} {key : String} {i : Nat} (h : Located a key)
    (hslot : a.slot key = .index i) :
    ∃ n item, i = n + 1 ∧ a.items[n]? = some item ∧ item.key = some key := by
  unfold Located at h
  rw [hslot] at h
  obtain ⟨hpos, hany⟩ := h
  obtain ⟨item, hget, hkey⟩ := (Option.any_eq_true _ _).mp hany
  exact ⟨i - 1, item, by omega, hget, of_decide_eq_true hkey⟩

/-- A key that is given is found where it is, a key can be made up, and what is filtered can be. -/
def Finds (s : Stores τ β) : Op τ β → Prop
  | .append (some key) _ _ _ _ => Located s.table key
  | .append none _ _ _ _ => s.table.isArray = false
  | .delete q => s.table.Filters ∨ q.toCriteria.Empty

/-- The item as the internal driver stores it. -/
def stamped (dates : Internal.Dates τ) (item : Item τ β) : Item τ β :=
  { item with value := Internal.stamp dates item.value item.when }

/-- Both drivers have the same items, each under its own key. -/
structure Alike (dates : Internal.Dates τ) (s : Stores τ β) : Prop where
  items : s.internal = s.table.items.map (stamped dates)
  keyed : ∀ item ∈ s.table.items, item.key ≠ none
  nodup : (s.table.items.map Item.key).Nodup

/-! ## Appending and deleting -/

omit [LinearOrder τ] in
theorem alike_init : Alike dates (init : Stores τ β) := by
  constructor <;> simp [init, table, Memory.empty]

variable {items : List (Item τ β)}

omit [LinearOrder τ] in
theorem filterBy_map {γ : Type*} {criterion : Option γ} {p : γ → Item τ β → Bool}
    (hp : ∀ c item, p c (stamped dates item) = p c item) :
    filterBy criterion p (items.map (stamped dates)) =
      (filterBy criterion p items).map (stamped dates) := by
  cases criterion with
  | none => rfl
  | some c =>
    simp only [filterBy, List.filter_map]
    congr 1
    exact List.filter_congr fun item _ => hp c item

theorem survivors_map (q : Query τ) (items : List (Item τ β)) :
    survivors q (items.map (stamped dates)) = (survivors q items).map (stamped dates) := by
  have htruncate : ∀ items : List (Item τ β),
      truncateItems q (items.map (stamped dates)) = (truncateItems q items).map (stamped dates) := by
    intro items
    unfold truncateItems
    split
    · rfl
    · rw [List.length_map]
      split
      · split
        · rw [List.map_take]
        · rw [List.map_drop]
      · rfl
  unfold survivors
  rw [filterBy_map fun _ _ => rfl, filterBy_map fun _ _ => rfl, filterBy_map fun _ _ => rfl,
    filterBy_map fun _ _ => rfl, htruncate]

theorem survivors_sublist (q : Query τ) (items : List (Item τ β)) :
    (survivors q items).Sublist items := by
  have htruncate : ∀ items : List (Item τ β), (truncateItems q items).Sublist items := by
    intro items
    unfold truncateItems
    split
    · exact List.Sublist.refl items
    · split
      · split
        · exact List.take_sublist _ _
        · exact List.drop_sublist _ _
      · exact List.Sublist.refl items
  unfold survivors
  simp only [filterBy_eq]
  exact (htruncate _).trans <| List.filter_sublist.trans <| List.filter_sublist.trans <|
    List.filter_sublist.trans List.filter_sublist

variable {s : Stores τ β}

theorem Alike.delete (h : Alike dates s) (q : Query τ)
    (hfilters : s.table.Filters ∨ q.toCriteria.Empty) : Alike dates (s.step dates (.delete q)) := by
  obtain ⟨hitems, hkeyed, hnodup⟩ := h
  have hlength : s.internal.length = s.table.items.length := by rw [hitems, List.length_map]
  dsimp only [step]
  by_cases hempty : q.Empty
  · have hm : (Memory.delete q s.memory).1 = none := by
      cases s.memory <;> simp [Memory.delete, hempty]
    rw [hm, Internal.delete, if_pos hempty]
    exact alike_init
  · -- what survives is the same in both
    have hsub := survivors_sublist q s.table.items
    have hcut : ∀ items, items = s.table.items ∨ items = survivors q s.table.items →
        (∀ item ∈ items, item.key ≠ none) ∧ (items.map Item.key).Nodup := by
      rintro items (rfl | rfl)
      · exact ⟨hkeyed, hnodup⟩
      · exact ⟨fun item hm => hkeyed item (hsub.subset hm), (hsub.map Item.key).nodup hnodup⟩
    have hi : (Internal.delete q s.internal).1 =
        if s.table.items.length - (survivors q s.table.items).length = 0 then s.internal
        else (survivors q s.table.items).map (stamped dates) := by
      rw [Internal.delete, if_neg hempty]
      dsimp only
      rw [hitems, survivors_map, List.length_map, List.length_map]
      split <;> rfl
    have hm : ((Memory.delete q s.memory).1.getD Memory.empty).items =
        if s.table.items.length - (survivors q s.table.items).length = 0 then s.table.items
        else survivors q s.table.items := by
      unfold table at hfilters ⊢
      cases hmemory : s.memory with
      | none => simp [Memory.delete, Memory.empty]
      | some a =>
        rw [hmemory, Option.getD_some] at hfilters
        have hcall : ¬ (¬ a.Filters ∧ ¬ q.toCriteria.Empty) := fun hno =>
          hfilters.elim hno.1 hno.2
        simp only [Memory.delete, if_neg hempty, if_neg hcall, Option.getD_some]
        split <;> rfl
    have hresult : ∀ memory : Option (Memory τ β), ∀ internal,
        (memory.getD Memory.empty).items = s.table.items ∨
          (memory.getD Memory.empty).items = survivors q s.table.items →
        internal = (memory.getD Memory.empty).items.map (stamped dates) →
        Alike dates { memory := memory, internal := internal } :=
      fun memory internal hor heq => ⟨heq, (hcut _ hor).1, (hcut _ hor).2⟩
    refine hresult _ _ ?_ ?_
    · rw [hm]
      split
      · exact Or.inl rfl
      · exact Or.inr rfl
    · rw [hm, hi]
      split
      · exact hitems
      · rfl

variable {id : String}

omit [LinearOrder τ] in
theorem Located.append (hn : (s.table.items.map Item.key).Nodup)
    {key : Option String} (h : Located s.table (key.getD id))
    (hplain : ¬ (key = none ∧ s.table.isArray)) (value : Stanza β) (when : τ)
    (withJid : Option String) : ∃ a, Memory.append s.memory key id value when withJid = some a ∧
      a.items = (s.table.items.filter fun item => item.key ≠ some (key.getD id)) ++
        [{ key := some (key.getD id), value := value, when := when, withJid := withJid }] := by
  unfold table at hplain
  cases hslot : s.table.slot (key.getD id) with
  | empty =>
    unfold Located at h
    rw [hslot] at h
    unfold table at hslot
    refine ⟨_, by simp only [Memory.append, if_neg hplain, hslot]; rfl, ?_⟩
    rw [List.filter_eq_self.mpr fun item hm => decide_eq_true (h item hm)]
    rfl
  | index i =>
    obtain ⟨n, item, rfl, hget, hkey⟩ := h.index hslot
    unfold table at hslot
    refine ⟨_, by simp only [Memory.append, if_neg hplain, hslot]; rfl, ?_⟩
    have herase := Keyed.eraseIdx_eq_filter hn hget
    rw [hkey] at herase
    rw [← herase]
    rfl
  | method =>
    unfold Located at h
    rw [hslot] at h
    exact h.elim

theorem Alike.append (h : Alike dates s) {key : Option String}
    {value : Stanza β} {when : τ} {withJid : Option String}
    (hfresh : Fresh s (.append key id value when withJid))
    (hfinds : Finds s (.append key id value when withJid)) :
    Alike dates (s.step dates (.append key id value when withJid)) := by
  obtain ⟨hitems, hkeyed, hnodup⟩ := h
  have hloc : Located s.table (key.getD id) := by
    cases key with
    | some key => exact hfinds
    | none =>
      unfold Located
      rw [Option.getD_none, hfresh.1]
      exact hfresh.2
  have hplain : ¬ (key = none ∧ s.table.isArray) := by
    rintro ⟨rfl, harray⟩
    rw [show s.table.isArray = false from hfinds] at harray
    cases harray
  obtain ⟨a, ha, hkept⟩ := hloc.append hnodup hplain value when withJid
  have htable : (s.step dates (.append key id value when withJid)).table = a := by
    simp only [step, table, ha, Option.some_or, Option.getD_some]
  constructor
  · rw [htable, hkept]
    dsimp only [step, Internal.append]
    cases key with
    | some key =>
      simp only [hitems, List.filter_map, List.map_append, Option.getD_some]
      rfl
    | none =>
      have hall : (s.table.items.filter fun item => item.key ≠ some id) = s.table.items :=
        List.filter_eq_self.mpr fun item hm => decide_eq_true (hfresh.2 item hm)
      rw [Option.getD_none, hall, List.map_append, hitems]
      rfl
  · rw [htable, hkept]
    intro item hm
    rw [List.mem_append, List.mem_singleton] at hm
    rcases hm with hm | rfl
    · exact hkeyed item (List.mem_filter.mp hm).1
    · exact Option.some_ne_none _
  · rw [htable, hkept, List.map_append, List.map_singleton, List.nodup_append]
    refine ⟨(List.filter_sublist.map Item.key).nodup hnodup, List.nodup_singleton _, ?_⟩
    intro k hk k' hk'
    obtain ⟨item, hm, rfl⟩ := List.mem_map.mp hk
    rw [List.mem_singleton.mp hk']
    simpa using (List.mem_filter.mp hm).2

theorem Alike.step (h : Alike dates s) (op : Op τ β) (hfresh : Fresh s op)
    (hfinds : Finds s op) : Alike dates (s.step dates op) := by
  cases op with
  | append key id value when withJid => exact h.append hfresh hfinds
  | delete q => exact h.delete q hfinds

/-! ## Finding -/

/-- The identifier of the item that a query starts after. -/
def cursor (q : Query τ) : Option String := if q.reverse then q.before else q.after

def directed {α : Type*} (q : Query τ) (items : List α) : List α :=
  if q.reverse then items.reverse else items

def limited {α : Type*} (q : Query τ) (items : List α) : List α :=
  match q.limit with
  | none => items
  | some limit => items.take limit

/-- The item without the attributes that the internal driver adds. -/
def clean (item : Item τ β) : Item τ β :=
  { item with value := { item.value with
      attr := (item.value.attr.set "stamp" none).set "stamp_legacy" none } }

omit [LinearOrder τ] in
theorem clean_stamped (item : Item τ β) : clean (stamped dates item) = clean item := by
  have hattr : ((((item.value.attr.set "stamp" (some (dates.datetime item.when))).set "stamp_legacy"
      (some (dates.legacy item.when))).set "stamp" none).set "stamp_legacy" none) =
      (item.value.attr.set "stamp" none).set "stamp_legacy" none := by
    apply Table.ext
    intro k
    simp only [Table.get_set]
    split
    · rfl
    · split <;> rfl
  simp only [clean, stamped, Internal.stamp, hattr]

omit [LinearOrder τ] in
theorem clean_clean (item : Item τ β) : clean (clean item) = clean item := by
  have hattr : ((((item.value.attr.set "stamp" none).set "stamp_legacy" none).set "stamp" none).set
      "stamp_legacy" none) = (item.value.attr.set "stamp" none).set "stamp_legacy" none := by
    apply Table.ext
    intro k
    simp only [Table.get_set]
    split
    · rfl
    · split <;> rfl
  simp only [clean, hattr]

omit [LinearOrder τ] in
theorem clean_eq_self {item : Item τ β} :
    clean item = item ↔
      item.value.attr.get "stamp" = none ∧ item.value.attr.get "stamp_legacy" = none := by
  obtain ⟨key, ⟨attr, body⟩, when, withJid⟩ := item
  simp only [clean, Item.mk.injEq, Stanza.mk.injEq, and_true, true_and]
  constructor
  · intro h
    rw [← h]
    simp [Table.get_set]
  · rintro ⟨hs, hl⟩
    apply Table.ext
    intro k
    rw [Table.get_set]
    split
    · rename_i heq
      rw [heq, hl]
    · rw [Table.get_set]
      split
      · rename_i heq
        rw [heq, hs]
      · rfl

def meetsKey (q : Query τ) (item : Item τ β) : Bool := q.key.all fun key => item.key = some key

/-- The items that the memory driver comes across. -/
def matching (q : Query τ) (items : List (Item τ β)) : List (Item τ β) :=
  directed q (items.filter (Memory.accepts q))

omit [LinearOrder τ] in
theorem directed_filter {α : Type*} (q : Query τ) (p : α → Bool) (items : List α) :
    directed q (items.filter p) = (directed q items).filter p := by
  unfold directed
  split
  · exact List.filter_reverse.symm
  · rfl

omit [LinearOrder τ] in
theorem directed_map {α γ : Type*} (q : Query τ) (f : α → γ) (items : List α) :
    directed q (items.map f) = (directed q items).map f := by
  unfold directed
  split
  · exact List.map_reverse.symm
  · rfl

omit [LinearOrder τ] in
theorem limited_map {α γ : Type*} (q : Query τ) (f : α → γ) (items : List α) :
    limited q (items.map f) = (limited q items).map f := by
  unfold limited
  split
  · rfl
  · exact List.map_take.symm

variable {q : Query τ}

theorem memory_find (hc : cursor q = none) (s : Stores τ β) :
    Memory.find q s.memory = some (q.limit.elim (matching q s.table.items) fun limit =>
      (matching q s.table.items).take (max limit 1)) := by
  have hscanned : Memory.scanned q s.table = some (directed q s.table.items) := by
    unfold cursor at hc
    unfold Memory.scanned directed
    split
    · rename_i hr
      rw [if_pos hr] at hc
      rw [hc]
      rfl
    · rename_i hr
      rw [if_neg hr] at hc
      rw [hc]
      rfl
  have htable : s.memory.getD Memory.empty = s.table := rfl
  unfold Memory.find
  rw [htable, hscanned, Option.map_some]
  simp only [matching, directed_filter]

theorem all_eq (q : Query τ) (item : Item τ β) :
    q.toCriteria.all item = (meetsKey q item && Memory.accepts q item) := by
  simp only [Criteria.all, meetsKey, Memory.accepts, Bool.and_assoc]
  congr 1
  cases q.qwith.all fun qwith => item.withJid = some qwith <;> simp

theorem select_stamped (q : Query τ) (items : List (Item τ β)) :
    Internal.select q (items.map (stamped dates)) =
      ((items.filter (Memory.accepts q)).filter (meetsKey q)).map (stamped dates) := by
  rw [Internal.select_eq, List.filter_map, List.filter_filter]
  congr 1
  exact List.filter_congr fun item _ => all_eq q (stamped dates item)

omit [LinearOrder τ] in
/-- Every item has its key, and the positions do not matter. -/
theorem map_present (h : ∀ item ∈ items, item.key ≠ none) :
    (items.zipIdx 1).map Internal.present = items.map clean := by
  have hfst : items.map clean = (items.zipIdx 1).map fun entry => clean entry.1 := by
    conv_lhs => rw [← List.zipIdx_map_fst 1 items, List.map_map]
    rfl
  rw [hfst]
  refine List.map_congr_left fun entry hm => ?_
  have hmem : entry.1 ∈ items := by
    rw [← List.zipIdx_map_fst 1 items]
    exact List.mem_map_of_mem hm
  obtain ⟨key, hkey⟩ := Option.ne_none_iff_exists'.mp (h entry.1 hmem)
  simp [Internal.present, clean, hkey]

omit [LinearOrder τ] in
theorem arrange_eq (q : Query τ) (items : List (Item τ β)) : Internal.arrange q items =
    (directed q items, (cursor q).elim 0 (Internal.position (directed q items))) := by
  unfold Internal.arrange directed cursor
  split <;> rfl

theorem internal_find (hc : cursor q = none) (h : Alike dates s) : Internal.find q s.internal =
      (limited q ((matching q s.table.items).filter (meetsKey q))).map clean := by
  have harrange : ∀ items : List (Item τ β), Internal.arrange q items = (directed q items, 0) := by
    intro items
    rw [arrange_eq, hc]
    rfl
  have hfound : Internal.found q s.internal =
      (limited q (directed q (Internal.select q s.internal))).zipIdx 1 := by
    unfold Internal.found limited
    rw [harrange]
    dsimp only
    rw [List.drop_zero]
    cases q.limit with
    | none => rfl
    | some limit =>
      dsimp only
      rw [Nat.sub_zero, Nat.zero_add]
      split
      · rfl
      · rename_i hlt
        rw [List.take_of_length_le (by omega)]
  have hlist : limited q (directed q (Internal.select q s.internal)) =
      (limited q ((matching q s.table.items).filter (meetsKey q))).map (stamped dates) := by
    rw [h.items, select_stamped, directed_map, limited_map, directed_filter]
    rfl
  have hkeyed : ∀ item ∈ (limited q ((matching q s.table.items).filter (meetsKey q))).map
      (stamped dates), item.key ≠ none := by
    intro item hm
    obtain ⟨item', hm', rfl⟩ := List.mem_map.mp hm
    have hsub : item' ∈ matching q s.table.items := by
      unfold limited at hm'
      split at hm'
      · exact (List.mem_filter.mp hm').1
      · exact (List.mem_filter.mp (List.mem_of_mem_take hm')).1
    have hitem : item' ∈ s.table.items := by
      unfold matching directed at hsub
      split at hsub
      · exact (List.mem_filter.mp (List.mem_reverse.mp hsub)).1
      · exact (List.mem_filter.mp hsub).1
    exact h.keyed item' hitem
  rw [Internal.find, hfound, hlist, map_present hkeyed, List.map_map]
  exact List.map_congr_left fun item _ => clean_stamped item

/-! ## Queries that start after an item -/

/-- The query starts at an item that it would find. -/
def Names (s : Stores τ β) (q : Query τ) : Prop :=
  ∀ id, cursor q = some id → ∃ item ∈ s.table.items, item.key = some id ∧ q.toCriteria.all item

/-- The memory driver starts with the item that the query names. -/
theorem memory_find_cursor (hc : cursor q = some id)
    (h : Alike dates s) (hn : s.Names q) (hl : Located s.table id) :
    ∃ item rest, Memory.find q s.memory = some (item :: rest) ∧ item.key = some id := by
  obtain ⟨named, hmem, hkey, hall⟩ := hn id hc
  rw [all_eq, Bool.and_eq_true] at hall
  cases hslot : s.table.slot id with
  | empty =>
    unfold Located at hl
    rw [hslot] at hl
    exact absurd hkey (hl named hmem)
  | method =>
    unfold Located at hl
    rw [hslot] at hl
    exact hl.elim
  | index i =>
    obtain ⟨n, item, rfl, hget, hitem⟩ := hl.index hslot
    obtain rfl : named = item := by
      have hinj := List.inj_on_of_nodup_map h.nodup hmem (List.mem_of_getElem? hget)
      exact hinj (hkey.trans hitem.symm)
    obtain ⟨hlt, hnamed⟩ := List.getElem?_eq_some_iff.mp hget
    obtain ⟨tail, hscanned⟩ : ∃ tail, Memory.scanned q s.table = some (named :: tail) := by
      unfold cursor at hc
      unfold Memory.scanned
      split
      · rename_i hr
        rw [if_pos hr] at hc
        rw [hc, Option.map_some, hslot]
        dsimp only
        refine ⟨(s.table.items.take n).reverse, ?_⟩
        rw [List.take_succ_eq_append_getElem hlt, List.reverse_append, hnamed]
        rfl
      · rename_i hr
        rw [if_neg hr] at hc
        rw [hc, Option.map_some, hslot]
        dsimp only
        refine ⟨s.table.items.drop (n + 1), ?_⟩
        rw [Nat.add_sub_cancel, List.drop_eq_getElem_cons hlt, hnamed]
    have htable : s.memory.getD Memory.empty = s.table := rfl
    unfold Memory.find
    rw [htable, hscanned, Option.map_some]
    dsimp only
    rw [List.filter_cons_of_pos hall.2]
    cases q.limit with
    | none => exact ⟨named, _, rfl, hkey⟩
    | some limit =>
      obtain ⟨m, hm⟩ : ∃ m, max limit 1 = m + 1 := ⟨max limit 1 - 1, by omega⟩
      refine ⟨named, (tail.filter (Memory.accepts q)).take m, ?_, hkey⟩
      rw [Option.elim_some, hm, List.take_succ_cons]

omit [LinearOrder τ] in
theorem position_spec
    (hkeyed : ∀ item ∈ items, item.key ≠ none) (h : ∃ item ∈ items, item.key = some id) :
    ∃ n item, Internal.position items id = n + 1 ∧ items[n]? = some item ∧ item.key = some id := by
  obtain ⟨item, hmem, hkey⟩ := h
  have hentry : ∃ j, (item, j) ∈ items.zipIdx 1 := by
    rw [← List.zipIdx_map_fst 1 items] at hmem
    obtain ⟨entry, hm, rfl⟩ := List.mem_map.mp hmem
    exact ⟨entry.2, hm⟩
  obtain ⟨j, hj⟩ := hentry
  cases hfind : (items.zipIdx 1).find? fun entry => entry.1.key.getD (toString entry.2) = id with
  | none =>
    have hno := List.find?_eq_none.mp hfind _ hj
    simp [hkey] at hno
  | some entry =>
    have hp := List.find?_some hfind
    have hm := List.mem_of_find?_eq_some hfind
    obtain ⟨hle, hget⟩ := List.mk_mem_zipIdx_iff_le_and_getElem?_sub.mp hm
    obtain ⟨key, hkey'⟩ := Option.ne_none_iff_exists'.mp
      (hkeyed entry.1 (List.mem_of_getElem? hget))
    refine ⟨entry.2 - 1, entry.1, ?_, hget, ?_⟩
    · rw [Internal.position, hfind, Option.elim_some]
      omega
    · rw [hkey', Option.getD_some, decide_eq_true_iff] at hp
      rw [hkey', hp]

/-- The internal driver starts after the item that the query names. -/
theorem internal_find_cursor (hc : cursor q = some id) (h : Alike dates s) (hn : s.Names q) :
    ∀ item ∈ Internal.find q s.internal, item.key ≠ some id := by
  obtain ⟨named, hmem, hkey, hall⟩ := hn id hc
  have hselect : Internal.select q s.internal =
      (s.table.items.filter q.toCriteria.all).map (stamped dates) := by
    rw [h.items, Internal.select_eq, List.filter_map]
    rfl
  obtain ⟨items, hitems⟩ : ∃ items, items = directed q (Internal.select q s.internal) := ⟨_, rfl⟩
  have hsub : ∀ item, item ∈ items ↔ item ∈ Internal.select q s.internal := by
    intro item
    rw [hitems]
    unfold directed
    split
    · exact List.mem_reverse
    · exact Iff.rfl
  have hkeys : (items.map Item.key).Nodup := by
    have hnodup : ((Internal.select q s.internal).map Item.key).Nodup := by
      rw [hselect, List.map_map]
      exact (List.filter_sublist.map Item.key).nodup h.nodup
    rw [hitems]
    unfold directed
    split
    · rw [List.map_reverse]
      exact List.nodup_reverse.mpr hnodup
    · exact hnodup
  have hkeyed : ∀ item ∈ items, item.key ≠ none := by
    intro item hm
    rw [hsub, hselect] at hm
    obtain ⟨item', hm', rfl⟩ := List.mem_map.mp hm
    exact h.keyed item' (List.mem_filter.mp hm').1
  have hthere : ∃ item ∈ items, item.key = some id := by
    refine ⟨stamped dates named, ?_, hkey⟩
    rw [hsub, hselect]
    exact List.mem_map_of_mem (List.mem_filter.mpr ⟨hmem, hall⟩)
  obtain ⟨n, item, hpos, hget, hitem⟩ := position_spec hkeyed hthere
  have harrange : Internal.arrange q (Internal.select q s.internal) = (items, n + 1) := by
    rw [← hpos, hitems, arrange_eq, hc]
    rfl
  -- whatever the limit leaves comes after the item
  have hafter : ∀ entry ∈ Internal.found q s.internal, entry.1 ∈ items.drop (n + 1) := by
    intro entry hm
    unfold Internal.found at hm
    rw [harrange] at hm
    dsimp only at hm
    have hfst : ∀ items' : List (Item τ β), entry ∈ (items'.zipIdx 1).drop (n + 1) →
        entry.1 ∈ items'.drop (n + 1) := by
      intro items' hm'
      rw [← List.zipIdx_map_fst 1 items', ← List.map_drop]
      exact List.mem_map_of_mem hm'
    have hm' := hfst _ hm
    split at hm'
    · exact hm'
    · split at hm'
      · rw [List.drop_take] at hm'
        exact List.mem_of_mem_take hm'
      · exact hm'
  intro result hresult
  obtain ⟨entry, hm, rfl⟩ := List.mem_map.mp hresult
  have hdrop := hafter entry hm
  have hne := Keyed.ne_of_mem_drop hkeys hget hdrop
  obtain ⟨key, hkey'⟩ := Option.ne_none_iff_exists'.mp (hkeyed _ (List.mem_of_mem_drop hdrop))
  rw [hitem, hkey'] at hne
  simpa [Internal.present, hkey'] using hne

/-! ## Where the drivers agree -/

/-- Both drivers return the same. -/
def Agrees (s : Stores τ β) (q : Query τ) : Prop :=
  Memory.find q s.memory = some (Internal.find q s.internal)

/-- Nothing of the query is read differently. -/
structure Safe (s : Stores τ β) (q : Query τ) : Prop where
  cursor : cursor q = none
  limit : q.limit = some 0 → matching q s.table.items = []
  key : ∀ item ∈ limited q (matching q s.table.items), meetsKey q item
  attr : ∀ item ∈ limited q (matching q s.table.items),
    item.value.attr.get "stamp" = none ∧ item.value.attr.get "stamp_legacy" = none

theorem Alike.agrees_iff (h : Alike dates s) (hn : s.Names q)
    (hl : ∀ id, Stores.cursor q = some id → Located s.table id) : s.Agrees q ↔ s.Safe q := by
  unfold Agrees
  cases hc : Stores.cursor q with
  | some id =>
    refine iff_of_false ?_ fun hs => ?_
    · obtain ⟨item, rest, hm, hkey⟩ := memory_find_cursor hc h hn (hl id hc)
      rw [hm]
      intro heq
      refine internal_find_cursor hc h hn item ?_ hkey
      rw [← Option.some.inj heq]
      exact List.mem_cons_self
    · have hnone := hs.cursor
      rw [hc] at hnone
      cases hnone
  | none =>
    rw [memory_find hc, internal_find hc h, Option.some.injEq]
    generalize hL : matching q s.table.items = found
    by_cases hzero : q.limit = some 0
    · -- the memory driver returns an item nevertheless
      have hcut : ∀ items : List (Item τ β), limited q items = [] := by
        intro items
        rw [limited, hzero]
        exact List.take_zero
      rw [hcut, hzero, Option.elim_some]
      constructor
      · intro heq
        have hnil : found = [] := by
          cases found with
          | nil => rfl
          | cons item rest => cases heq
        refine ⟨hc, fun _ => hL.trans hnil, ?_, ?_⟩
        · rw [hcut]
          exact fun _ hm => absurd hm List.not_mem_nil
        · rw [hcut]
          exact fun _ hm => absurd hm List.not_mem_nil
      · intro hs
        rw [← hL, hs.limit hzero]
        rfl
    · have hmemory : (q.limit.elim found fun limit => found.take (max limit 1)) =
          limited q found := by
        unfold limited
        cases hlim : q.limit with
        | none => rfl
        | some limit =>
          rw [hlim, Option.some.injEq] at hzero
          rw [Option.elim_some, Nat.max_eq_left (Nat.pos_of_ne_zero hzero)]
      rw [hmemory]
      have hsafe : s.Safe q ↔ ∀ item ∈ limited q found, meetsKey q item = true ∧
          clean item = item := by
        constructor
        · intro hs item hm
          rw [← hL] at hm
          exact ⟨hs.key item hm, clean_eq_self.mpr (hs.attr item hm)⟩
        · intro hall
          refine ⟨hc, fun hz => absurd hz hzero, ?_, ?_⟩
          · rw [hL]
            exact fun item hm => (hall item hm).1
          · rw [hL]
            exact fun item hm => clean_eq_self.mp (hall item hm).2
      rw [hsafe]
      constructor
      · intro heq item hm
        rw [heq] at hm
        obtain ⟨item', hm', rfl⟩ := List.mem_map.mp hm
        refine ⟨?_, clean_clean item'⟩
        have hkept : item' ∈ found.filter (meetsKey q) := by
          unfold limited at hm'
          split at hm'
          · exact hm'
          · exact List.mem_of_mem_take hm'
        exact (List.mem_filter.mp hkept).2
      · intro hall
        have hfilter : limited q (found.filter (meetsKey q)) = limited q found := by
          unfold limited at hall ⊢
          split
          · rename_i hlim
            rw [hlim] at hall
            exact List.filter_eq_self.mpr fun item hm => (hall item hm).1
          · rename_i limit hlim
            rw [hlim] at hall
            exact Keyed.take_filter fun item hm => (hall item hm).1
        calc limited q found = (limited q found).map id := (List.map_id _).symm
          _ = (limited q found).map clean :=
            List.map_congr_left fun item hm => (hall item hm).2.symm
          _ = (limited q (found.filter (meetsKey q))).map clean := by rw [hfilter]

/-- Where keys are found where they are, the drivers return the same for a query exactly if
nothing of it is read differently. -/
theorem drivers_agree_iff (ops : List (Op τ β))
    (hfresh : Machine.Guarded (step dates) Fresh init ops)
    (hfinds : Machine.Guarded (step dates) Finds init ops) (q : Query τ)
    (hn : (Machine.run (step dates) init ops).Names q)
    (hl : ∀ id, Stores.cursor q = some id → Located (Machine.run (step dates) init ops).table id) :
    (Machine.run (step dates) init ops).Agrees q ↔
      (Machine.run (step dates) init ops).Safe q := by
  have hrun : ∀ (ops : List (Op τ β)) (s : Stores τ β), Alike dates s →
      Machine.Guarded (step dates) Fresh s ops → Machine.Guarded (step dates) Finds s ops →
      Alike dates (Machine.run (step dates) s ops) := by
    intro ops
    induction ops with
    | nil => exact fun s hs _ _ => hs
    | cons op ops ih => exact fun s hs hf hk => ih _ (hs.step op hf.1 hk.1) hf.2 hk.2
  exact (hrun ops init alike_init hfresh hfinds).agrees_iff hn hl

/-! ## A few letters -/

def plainDates : Internal.Dates Nat := { datetime := toString, legacy := toString }

def letter (key : String) (when : Nat) : Op Nat Unit :=
  .append (some key) "" { attr := ∅, body := () } when (some "juliet@capulet")

def everything : Query Nat := Criteria.query ⟨none, none, none, none⟩

def twoLetters : Stores Nat Unit :=
  Machine.run (step plainDates) init [letter "a" 1, letter "b" 2]

theorem drivers_agree_twoLetters : twoLetters.Agrees everything := by
  refine (drivers_agree_iff (β := Unit) [letter "a" 1, letter "b" 2] ⟨trivial, trivial, trivial⟩
    ⟨?_, ?_, trivial⟩ everything (fun _ hc => by cases hc) (fun _ hc => by cases hc)).mpr ?_
  · change Located (Memory.empty : Memory Nat Unit) "a"
    decide
  · change Located (step plainDates init (letter "a" 1)).table "b"
    decide
  · exact ⟨rfl, by decide, by decide, by decide⟩

/-- What comes after the first letter begins with the first letter, in memory. Where two
letters have been replaced, one after the other, the third one is lost. -/
theorem letters_differ :
    ((Memory.find { everything with after := some "a" } twoLetters.memory).map
        (List.map Item.key) = some [some "a", some "b"] ∧
      (Internal.find { everything with after := some "a" } twoLetters.internal).map Item.key =
        [some "b"]) ∧
    let s := Machine.run (step plainDates) init
      [letter "a" 1, letter "b" 2, letter "c" 3, letter "a" 4, letter "b" 5]
    (Memory.find everything s.memory).map (List.map Item.key) =
        some [some "b", some "a", some "b"] ∧
      (Internal.find everything s.internal).map Item.key = [some "c", some "a", some "b"] := by
  decide

end Stores

end Prosody.Archive
