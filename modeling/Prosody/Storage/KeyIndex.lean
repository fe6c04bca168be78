import Prosody.Storage.Drivers

/-! # The index by key of archives in memory (`mod_storage_memory.lua`) -/

namespace Prosody.Archive.Memory

variable {τ β : Type*}

/-- Every item is found under its key, and every key leads to the item that has it. -/
structure Indexed (a : Memory τ β) : Prop where
  positions : ∀ i item, a.items[i]? = some item →
    ∃ key, item.key = some key ∧ a.index.get key = some (i + 1)
  keys : ∀ key i, a.index.get key = some i →
    ∃ n item, i = n + 1 ∧ a.items[n]? = some item ∧ item.key = some key

/-- The index is right, and so is what depends on it: where `find` starts, and what an item that is
appended replaces. -/
structure Right [LinearOrder τ] (a : Memory τ β) : Prop extends Indexed a where
  after : ∀ (q : Query τ) i item key, a.items[i]? = some item → item.key = some key →
    q.reverse = false → q.after = some key → scanned q a = some (a.items.drop i)
  before : ∀ (q : Query τ) i item key, a.items[i]? = some item → item.key = some key →
    q.reverse = true → q.before = some key → scanned q a = some (a.items.take (i + 1)).reverse
  replaces : ∀ key id value when withJid, (∃ item ∈ a.items, item.key = some key) →
    ∃ a', append (some a) (some key) id value when withJid = some a' ∧
      a'.items = (a.items.filter fun item => item.key ≠ some key) ++
        [{ key := some key, value := value, when := when, withJid := withJid }]

theorem indexed_empty : Indexed (empty : Memory τ β) where
  positions i item h := by cases h
  keys key i h := by
    rw [empty, Table.get_empty] at h
    cases h

variable {item : Item τ β} {a : Memory τ β}

theorem Indexed.located (h : Indexed a) {i : ℕ} {key : String}
    (hitem : a.items[i]? = some item) (hkey : item.key = some key) :
    a.slot key = .index (i + 1) := by
  obtain ⟨key', hkey', hindex⟩ := h.positions i item hitem
  obtain rfl : key = key' := Option.some.inj (hkey.symm.trans hkey')
  rw [slot, hindex]

theorem Indexed.nodup (h : Indexed a) : (a.items.map Item.key).Nodup := by
  rw [List.nodup_iff_injective_get]
  intro i j heq
  have hget : ∀ i : Fin (a.items.map Item.key).length, ∃ item, a.items[(i : ℕ)]? = some item ∧
      (a.items.map Item.key).get i = item.key := fun i =>
    have hi : (i : ℕ) < a.items.length := by simpa using i.isLt
    ⟨a.items[(i : ℕ)], List.getElem?_eq_getElem hi, by simp⟩
  obtain ⟨x, hx, hxkey⟩ := hget i
  obtain ⟨y, hy, hykey⟩ := hget j
  obtain ⟨key, hkey, hi⟩ := h.positions i x hx
  have hsame : y.key = some key := by rw [← hykey, ← heq, hxkey, hkey]
  have hslots := (h.located hx hkey).symm.trans (h.located hy hsame)
  exact Fin.ext (Nat.succ.inj (Slot.index.inj hslots))

theorem Indexed.right [LinearOrder τ] (h : Indexed a) : Right a where
  toIndexed := h
  after q i item key hitem hkey hforward hafter := by
    rw [scanned, hforward, hafter, Option.map_some, h.located hitem hkey]
    rfl
  before q i item key hitem hkey hreverse hbefore := by
    rw [scanned, hreverse, hbefore, Option.map_some, h.located hitem hkey]
    rfl
  replaces key id value when withJid := by
    rintro ⟨item, hmem, hkey⟩
    obtain ⟨i, hitem⟩ := List.mem_iff_getElem?.mp hmem
    have hloc : Stores.Located a key := by
      unfold Stores.Located
      rw [h.located hitem hkey]
      exact ⟨Nat.succ_pos i, by simp [hitem, hkey]⟩
    exact @Stores.Located.append _ _ ⟨some a, []⟩ id h.nodup (some key) hloc
      (fun hno => by cases hno.1) value when withJid

/-! ## At the end of the list -/

theorem Indexed.push {a : Memory τ β} (h : Indexed a) {key : String} {item : Item τ β}
    (hnew : a.index.get key = none) (hkey : item.key = some key) : Indexed (a.push key item) where
  positions i other hother := by
    dsimp only [Memory.push] at hother ⊢
    rcases Nat.lt_or_ge i a.items.length with hlt | hge
    · rw [List.getElem?_append_left hlt] at hother
      obtain ⟨key', hkey', hindex⟩ := h.positions i other hother
      have hne : key' ≠ key := by
        rintro rfl
        rw [hnew] at hindex
        cases hindex
      exact ⟨key', hkey', by rw [Table.get_set, if_neg hne, hindex]⟩
    · rw [List.getElem?_append_right hge, List.getElem?_singleton] at hother
      split_ifs at hother with hi
      obtain rfl := Option.some.inj hother
      refine ⟨key, hkey, ?_⟩
      rw [Table.get_set_self, show i = a.items.length by omega]
  keys key' i hindex := by
    dsimp only [Memory.push] at hindex ⊢
    rw [Table.get_set] at hindex
    split_ifs at hindex with heq
    · exact ⟨a.items.length, item, (Option.some.inj hindex).symm, List.getElem?_concat_length,
        heq ▸ hkey⟩
    · obtain ⟨n, other, hi, hother, hkey'⟩ := h.keys key' i hindex
      have hn : n < a.items.length := (List.getElem?_eq_some_iff.mp hother).1
      exact ⟨n, other, hi, by rw [List.getElem?_append_left hn, hother], hkey'⟩

theorem Indexed.pop (h : Indexed a) {front : List (Item τ β)}
    {key : String} (hitems : a.items = front ++ [item]) (hkey : item.key = some key) :
    Indexed { a with items := front, index := a.index.set key none } := by
  have hlast : a.items[front.length]? = some item := by
    rw [hitems, List.getElem?_concat_length]
  have hfront : ∀ {n : ℕ} {other : Item τ β}, front[n]? = some other →
      a.items[n]? = some other := fun hother => by
    rw [hitems, List.getElem?_append_left (List.getElem?_eq_some_iff.mp hother).1, hother]
  constructor
  · intro i other hother
    obtain ⟨key', hkey', hindex⟩ := h.positions i other (hfront hother)
    have hne : key' ≠ key := by
      rintro rfl
      have hslots := (h.located (hfront hother) hkey').symm.trans (h.located hlast hkey)
      have hi : i < front.length := (List.getElem?_eq_some_iff.mp hother).1
      have := Slot.index.inj hslots
      omega
    exact ⟨key', hkey', by rw [Table.get_set, if_neg hne, hindex]⟩
  · intro key' i hindex
    rw [Table.get_set] at hindex
    split_ifs at hindex with heq
    obtain ⟨n, other, rfl, hother, hkey'⟩ := h.keys key' i hindex
    refine ⟨n, other, rfl, ?_, hkey'⟩
    rw [hitems] at hother
    rcases Nat.lt_or_ge n front.length with hlt | hge
    · rwa [List.getElem?_append_left hlt] at hother
    · rw [List.getElem?_append_right hge, List.getElem?_singleton] at hother
      split_ifs at hother
      obtain rfl := Option.some.inj hother
      exact absurd (Option.some.inj (hkey'.symm.trans hkey)) heq

theorem reindex_concat (items : List (Item τ β)) {key : String} (hkey : item.key = some key) :
    reindex (items ++ [item]) = (reindex items).set key (some (items.length + 1)) := by
  unfold reindex
  rw [List.zipIdx_append, List.foldl_append]
  simp [hkey, Nat.add_comm]

/-- Indexing again is right where items have different keys. -/
theorem indexed_reindex {items : List (Item τ β)} (hkeyed : ∀ item ∈ items, item.key ≠ none)
    (hnodup : (items.map Item.key).Nodup) (isArray : Bool) :
    Indexed ⟨items, reindex items, isArray⟩ := by
  induction items using List.reverseRecOn with
  | nil => exact ⟨indexed_empty.positions, indexed_empty.keys⟩
  | append_singleton items item ih =>
    have hsub := List.sublist_append_left items [item]
    have hitems := ih (fun other hmem => hkeyed other (hsub.subset hmem))
      ((hsub.map Item.key).nodup hnodup)
    obtain ⟨key, hkey⟩ := Option.ne_none_iff_exists'.mp
      (hkeyed item (List.mem_append_right _ (List.mem_singleton_self item)))
    have hnew : (reindex items).get key = none := by
      rw [Option.eq_none_iff_forall_ne_some]
      intro i hi
      obtain ⟨n, other, -, hother, hkey'⟩ := hitems.keys key i hi
      rw [List.map_append] at hnodup
      exact (List.nodup_append.mp hnodup).2.2 _
        (List.mem_map_of_mem (List.mem_of_getElem? hother)) _ (List.mem_singleton_self item.key)
        (hkey'.trans hkey.symm)
    have hpush := hitems.push hnew hkey
    rw [reindex_concat items hkey]
    exact hpush

/-! ## Calls -/

variable [LinearOrder τ]

/-- A call, which leaves the table as it is if it raises an error. -/
def call (store : Option (Memory τ β)) : Stores.Op τ β → Option (Memory τ β)
  | .append key id value when withJid => (append store key id value when withJid).or store
  | .delete q => (delete q store).1

def LastReplaced (store : Option (Memory τ β)) : Stores.Op τ β → Prop
  | .append key id _ _ _ =>
    (key = none ∧ (store.getD empty).isArray) ∨ ∀ item ∈ (store.getD empty).items,
      item.key = some (key.getD id) → (store.getD empty).items.getLast? = some item
  | .delete _ => True

/-- The table under the name of a user, if there is one. -/
abbrev Holds (P : Memory τ β → Prop) (store : Option (Memory τ β)) : Prop := P (store.getD empty)

theorem Indexed.append {store : Option (Memory τ β)} (h : Holds Indexed store)
    {key : Option String} {id : String} {value : Stanza β} {when : τ} {withJid : Option String}
    (hlast : LastReplaced store (.append key id value when withJid)) :
    Holds Indexed (call store (.append key id value when withJid)) := by
  dsimp only [call, Memory.append]
  split_ifs with hmakes
  · exact h
  · cases hslot : (store.getD empty).slot (key.getD id) with
    | method => exact h
    | empty =>
      have hnew : (store.getD empty).index.get (key.getD id) = none := by
        unfold slot at hslot
        split at hslot
        · cases hslot
        · assumption
      exact h.push hnew rfl
    | index i =>
      have hget : (store.getD empty).index.get (key.getD id) = some i := by
        unfold slot at hslot
        split at hslot
        · rw [← Slot.index.inj hslot]
          assumption
        · split_ifs at hslot
      obtain ⟨n, item, rfl, hitem, hkey⟩ := h.keys _ i hget
      obtain ⟨front, hitems⟩ := List.getLast?_eq_some_iff.mp
        (hlast.resolve_left hmakes item (List.mem_of_getElem? hitem) hkey)
      have hn : n = front.length := by
        have hend : (store.getD empty).items[front.length]? = some item := by
          rw [hitems, List.getElem?_concat_length]
        have hslots := (h.located hitem hkey).symm.trans (h.located hend hkey)
        exact Nat.succ.inj (Slot.index.inj hslots)
      have hnew : (⟨some (key.getD id), value, when, withJid⟩ : Item τ β).key =
          some (key.getD id) := rfl
      have hpush := (h.pop hitems hkey).push (Table.get_set_self _ _ _) hnew
      have hfront : (store.getD empty).items.eraseIdx (n + 1 - 1) = front := by
        rw [hitems, hn, Nat.add_sub_cancel, List.eraseIdx_append_of_length_le (Nat.le_refl _),
          Nat.sub_self, List.eraseIdx_cons_zero, List.append_nil]
      unfold Memory.push at hpush ⊢
      rw [Table.set_set] at hpush
      simp only [Option.some_or, Option.getD_some, Holds, hfront]
      exact hpush

theorem Indexed.delete {store : Option (Memory τ β)} (h : Holds Indexed store) (q : Query τ) :
    Holds Indexed (call store (.delete q)) := by
  cases store with
  | none => exact h
  | some a =>
    dsimp only [call, Memory.delete]
    have hsub := Stores.survivors_sublist q a.items
    split_ifs
    · exact indexed_empty
    · exact ⟨h.positions, h.keys⟩
    · exact ⟨h.positions, h.keys⟩
    · refine indexed_reindex (fun item hmem => ?_) ((hsub.map Item.key).nodup h.nodup) false
      obtain ⟨i, hitem⟩ := List.mem_iff_getElem?.mp (hsub.subset hmem)
      obtain ⟨key, hkey, -⟩ := h.positions i item hitem
      rw [hkey]
      exact Option.some_ne_none key

theorem Indexed.call {store : Option (Memory τ β)} (h : Holds Indexed store)
    {op : Stores.Op τ β} (hlast : LastReplaced store op) : Holds Indexed (call store op) := by
  cases op with
  | append key id value when withJid => exact h.append hlast
  | delete q => exact h.delete q

/-- The items behind one that is replaced move, but their positions in the index do not. -/
theorem Indexed.lastReplaced {store : Option (Memory τ β)} (h : Holds Indexed store)
    {op : Stores.Op τ β} (hnext : Holds Indexed (Memory.call store op)) :
    LastReplaced store op := by
  cases op with
  | delete q => trivial
  | append key id value when withJid =>
    by_cases hmakes : key = none ∧ (store.getD empty).isArray
    · exact Or.inl hmakes
    refine Or.inr fun item hmem hkey => ?_
    obtain ⟨i, hitem⟩ := List.mem_iff_getElem?.mp hmem
    obtain ⟨front, rest, hitems, hi⟩ : ∃ front rest,
        (store.getD empty).items = front ++ item :: rest ∧ front.length = i := by
      obtain ⟨hlt, hget⟩ := List.getElem?_eq_some_iff.mp hitem
      refine ⟨(store.getD empty).items.take i, (store.getD empty).items.drop (i + 1), ?_, ?_⟩
      · rw [← hget, List.cons_getElem_drop_succ, List.take_append_drop]
      · exact List.length_take_of_le (Nat.le_of_lt hlt)
    cases rest with
    | nil => rw [hitems, List.getLast?_concat]
    | cons other rest =>
      have hother : (store.getD empty).items[i + 1]? = some other := by
        rw [hitems, ← hi]
        simp
      obtain ⟨key', hkey', hindex⟩ := h.positions _ other hother
      have hne : key' ≠ key.getD id := by
        rintro rfl
        have hslots := (h.located hother hkey').symm.trans (h.located hitem hkey)
        have := Slot.index.inj hslots
        omega
      have htable : (Memory.call store (.append key id value when withJid)).getD empty =
          Memory.push { (store.getD empty) with items := front ++ other :: rest } (key.getD id)
            ⟨some (key.getD id), value, when, withJid⟩ := by
        have herase : (store.getD empty).items.eraseIdx (i + 1 - 1) =
            front ++ other :: rest := by
          rw [hitems, Nat.add_sub_cancel, ← hi,
            List.eraseIdx_append_of_length_le (Nat.le_refl _), Nat.sub_self,
            List.eraseIdx_cons_zero]
        rw [Memory.call, Memory.append, if_neg hmakes, h.located hitem hkey]
        simp only [Option.some_or, Option.getD_some, herase]
      have hmoved : ((Memory.call store (.append key id value when withJid)).getD
          empty).items[i]? = some other := by
        rw [htable, Memory.push, ← hi]
        simp
      obtain ⟨key'', hkey'', hindex'⟩ := hnext.positions i other hmoved
      obtain rfl : key' = key'' := Option.some.inj (hkey'.symm.trans hkey'')
      rw [htable, Memory.push, Table.get_set, if_neg hne] at hindex'
      have := Option.some.inj (hindex.symm.trans hindex')
      omega

/-- The index of an archive is right at all times exactly if an item is replaced only while it is
the last one. -/
theorem always_indexed_iff (ops : List (Stores.Op τ β)) :
    Machine.Always call (Holds Right) none ops ↔ Machine.Guarded call LastReplaced none ops :=
  Machine.always_iff_guarded (s := none) (P := Holds Indexed) (fun _ h => h.right)
    (fun _ _ h => h.call) (fun _ _ h hright => h.lastReplaced hright.toIndexed) indexed_empty ops

/-- The first of two letters is replaced. -/
theorem replaced_not_indexed :
    ¬ Machine.Always call (Holds Right) none
      [Stores.letter "a" 1, Stores.letter "b" 2, Stores.letter "a" 3] := by
  intro h
  have hright := Machine.always_iff.mp h _ List.prefix_rfl
  obtain ⟨key, hkey, hindex⟩ := hright.positions 0 ⟨some "b", ⟨∅, ()⟩, 2, some "juliet@capulet"⟩
    (by decide)
  obtain rfl := Option.some.inj hkey
  exact absurd hindex (by decide)

end Prosody.Archive.Memory
