import Mathlib.Data.List.Perm.Subperm
import Mathlib.Data.Rat.Floor
import Prosody.Library.LinkedList
import Prosody.Library.Simulation

/-! # The cache (`util/cache.lua`) -/

namespace Prosody.UtilCache

open LinkedList

/-! ## The linked list and the index -/

/-- What `on_evict` is, where a function may answer differently each time. -/
inductive Policy (K V : Type*)
  | absent
  | refuse
  | ask (veto : ℕ → K → V → Bool)

/-- Nodes are numbered in the order of their creation, and each of their fields is a function. -/
structure Cache (K V : Type*) where
  data : K → Option ℕ
  count : ℕ
  size : ℕ
  head : Option ℕ
  tail : Option ℕ
  onEvict : Policy K V
  key : ℕ → Option K
  value : ℕ → Option V
  prev : ℕ → Option ℕ
  next : ℕ → Option ℕ
  fresh : ℕ
  calls : ℕ

inductive Reply (K V : Type*)
  | error
  | boolean (b : Bool)
  | value (v : Option V)
  | number (n : ℕ)
  | pair (k : Option K) (v : Option V)
  | items (xs : Option (List (Option K × Option V)))
  | values (xs : Option (List (Option V)))

inductive Call (K V : Type*)
  | set (k : K) (v : Option V)
  | get (k : K)
  | items
  | values
  | count
  | head
  | tail
  | resize (newSize : Option ℚ)
  | clear

section

variable {K V β : Type*}

def Policy.vetoes (policy : Policy K V) (calls : ℕ) (k : K) (v : V) : Bool :=
  match policy with
  | .absent => false
  | .refuse => true
  | .ask veto => veto calls k v

def Policy.asked (policy : Policy K V) (calls : ℕ) : ℕ :=
  match policy with
  | .ask _ => calls + 1
  | _ => calls

/-- A size that is a number, and positive after rounding down. -/
def toSize (n : Option ℚ) : Option ℕ :=
  n.bind fun q => if 0 < q.floor then some q.floor.toNat else none

def empty (size : ℕ) (onEvict : Policy K V) : Cache K V :=
  { data := fun _ => none, count := 0, size := size, head := none, tail := none
    onEvict := onEvict, key := fun _ => none, value := fun _ => none, prev := fun _ => none
    next := fun _ => none, fresh := 0, calls := 0 }

def new (size : Option ℚ) (onEvict : Policy K V) : Option (Cache K V) :=
  (toSize size).map fun n => empty n onEvict

/-- `_remove`, where each assignment sees the ones before it. -/
def remove (list : Cache K V) (m : ℕ) : Cache K V :=
  let next := assign list.next (list.prev m) (list.next m)
  let prev := assign list.prev (next m) (list.prev m)
  { list with
    next := next
    prev := prev
    tail := if list.tail = some m then prev m else list.tail
    head := if list.head = some m then next m else list.head
    count := list.count - 1 }

/-- `_insert` -/
def insert (list : Cache K V) (m : ℕ) : Cache K V :=
  { list with
    prev := Function.update (assign list.prev list.head (some m)) m none
    next := Function.update list.next m list.head
    head := some m
    tail := list.tail.or (some m)
    count := list.count + 1 }

variable [DecidableEq K]

/-- The oldest entry goes, unless that is refused. There is no result without a tail. -/
def evict (c : Cache K V) : Option (Bool × Cache K V) :=
  c.tail.bind fun tail => (c.key tail).bind fun k => (c.value tail).map fun v =>
    let asked := { c with calls := c.onEvict.asked c.calls }
    if c.onEvict.vetoes c.calls k v then (false, asked)
    else (true, { remove asked tail with data := Function.update c.data k none })

def add (c : Cache K V) (k : K) (v : V) : Cache K V :=
  insert
    { c with
      fresh := c.fresh + 1
      key := Function.update c.key c.fresh (some k)
      value := Function.update c.value c.fresh (some v)
      prev := Function.update c.prev c.fresh none
      next := Function.update c.next c.fresh none
      data := Function.update c.data k (some c.fresh) } c.fresh

def set (c : Cache K V) (k : K) (v : Option V) : Reply K V × Cache K V :=
  match c.data k, v with
  | some m, some v =>
    (.boolean true, { insert (remove c m) m with value := Function.update c.value m (some v) })
  | some m, none => (.boolean true, { remove c m with data := Function.update c.data k none })
  | none, none => (.boolean true, c)
  | none, some v =>
    if c.count = c.size then
      match evict c with
      | none => (.error, c)
      | some (false, c) => (.boolean false, c)
      | some (true, c) => (.boolean true, add c k v)
    else (.boolean true, add c k v)

def get (c : Cache K V) (k : K) : Option V := (c.data k).bind c.value

/-- What an iterator gives from a node on, unless it never ends. -/
def walk (c : Cache K V) (f : ℕ → β) : (fuel : ℕ) → Option ℕ → Option (List β)
  | _, none => some []
  | 0, some _ => none
  | fuel + 1, some m => (walk c f fuel (c.next m)).map (f m :: ·)

def items (c : Cache K V) : Option (List (Option K × Option V)) :=
  walk c (fun m => (c.key m, c.value m)) c.fresh c.head

def values (c : Cache K V) : Option (List (Option V)) := walk c c.value c.fresh c.head

def pairOf (c : Cache K V) (m : Option ℕ) : Reply K V := .pair (m.bind c.key) (m.bind c.value)

/-- The loop of `resize`, which has no more rounds than there are entries. -/
def shrink (n : ℕ) : (fuel : ℕ) → Cache K V → Reply K V × Cache K V
  | 0, c => if n < c.count then (.error, c) else (.boolean true, { c with size := n })
  | fuel + 1, c =>
    if n < c.count then
      match evict c with
      | none => (.error, c)
      | some (false, c) => (.boolean false, c)
      | some (true, c) => shrink n fuel c
    else (.boolean true, { c with size := n })

def resize (c : Cache K V) (newSize : Option ℚ) : Reply K V × Cache K V :=
  match toSize newSize with
  | none => (.error, c)
  | some n => shrink n c.count c

def clear (c : Cache K V) : Cache K V :=
  { c with data := fun _ => none, count := 0, head := none, tail := none }

def step (c : Cache K V) : Call K V → Reply K V × Cache K V
  | .set k v => set c k v
  | .get k => (.value (get c k), c)
  | .items => (.items (items c), c)
  | .values => (.values (values c), c)
  | .count => (.number c.count, c)
  | .head => (pairOf c c.head, c)
  | .tail => (pairOf c c.tail, c)
  | .resize newSize => resize c newSize
  | .clear => (.boolean true, clear c)

/-! ## The list it stands for -/

/-- The entries, the one that was set last in front. -/
structure Lru (K V : Type*) where
  size : ℕ
  entries : List (K × V)
  calls : ℕ

def without (k : K) (entries : List (K × V)) : List (K × V) := entries.filter (·.1 ≠ k)

/-- The entry that was set longest ago goes, unless that is refused. -/
def Lru.evict (policy : Policy K V) (s : Lru K V) : Option (Bool × Lru K V) :=
  s.entries.getLast?.map fun oldest =>
    let asked := { s with calls := policy.asked s.calls }
    if policy.vetoes s.calls oldest.1 oldest.2 then (false, asked)
    else (true, { asked with entries := s.entries.dropLast })

def Lru.set (policy : Policy K V) (s : Lru K V) (k : K) (v : Option V) : Reply K V × Lru K V :=
  match v with
  | none => (.boolean true, { s with entries := without k s.entries })
  | some v =>
    if k ∈ s.entries.map Prod.fst then
      (.boolean true, { s with entries := (k, v) :: without k s.entries })
    else if s.entries.length = s.size then
      match s.evict policy with
      | none => (.error, s)
      | some (false, s) => (.boolean false, s)
      | some (true, s) => (.boolean true, { s with entries := (k, v) :: s.entries })
    else (.boolean true, { s with entries := (k, v) :: s.entries })

/-- The oldest entries go until the others fit or one of them has to stay. -/
def Lru.shrink (policy : Policy K V) (n : ℕ) : (fuel : ℕ) → Lru K V → Reply K V × Lru K V
  | 0, s => (.boolean true, { s with size := n })
  | fuel + 1, s =>
    if n < s.entries.length then
      match s.evict policy with
      | none => (.error, s)
      | some (false, s) => (.boolean false, s)
      | some (true, s) => Lru.shrink policy n fuel s
    else (.boolean true, { s with size := n })

def Lru.step (policy : Policy K V) (s : Lru K V) : Call K V → Reply K V × Lru K V
  | .set k v => s.set policy k v
  | .get k => (.value ((s.entries.find? (·.1 = k)).map Prod.snd), s)
  | .items => (.items (some (s.entries.map fun e => (some e.1, some e.2))), s)
  | .values => (.values (some (s.entries.map fun e => some e.2)), s)
  | .count => (.number s.entries.length, s)
  | .head => (.pair (s.entries.head?.map Prod.fst) (s.entries.head?.map Prod.snd), s)
  | .tail => (.pair (s.entries.getLast?.map Prod.fst) (s.entries.getLast?.map Prod.snd), s)
  | .resize newSize =>
    match toSize newSize with
    | none => (.error, s)
    | some n => s.shrink policy n s.entries.length
  | .clear => (.boolean true, { s with entries := [] })

end

/-! ## Nodes that stand for a list of entries -/

section

variable {K V : Type*} {c : Cache K V} {refs a b : List ℕ} {m : ℕ} {entries ea eb : List (K × V)}
  {k : K} {v : V}

/-- The links, the ends and the count agree on the nodes. -/
structure Chained (c : Cache K V) (refs : List ℕ) : Prop where
  nodup : refs.Nodup
  segment : Segment c.next c.prev none refs none
  head : c.head = refs.head?
  tail : c.tail = refs.getLast?
  count : c.count = refs.length

def entry (c : Cache K V) (m : ℕ) : Option (K × V) :=
  (c.key m).bind fun k => (c.value m).map fun v => (k, v)

/-- The nodes hold the entries, and the index leads to them. -/
structure Describes (c : Cache K V) (refs : List ℕ) (entries : List (K × V)) : Prop where
  map_entry : refs.map (entry c) = entries.map some
  data_iff : ∀ k m, c.data k = some m ↔ m ∈ refs ∧ c.key m = some k
  fresh : ∀ m ∈ refs, m < c.fresh

/-- Only the links, the ends and the count matter. -/
theorem Chained.congr {c' : Cache K V} (h : Chained c refs) (hnext : c'.next = c.next)
    (hprev : c'.prev = c.prev) (hhead : c'.head = c.head) (htail : c'.tail = c.tail)
    (hcount : c'.count = c.count) : Chained c' refs := by
  refine ⟨h.nodup, ?_, hhead.trans h.head, htail.trans h.tail, hcount.trans h.count⟩
  rw [hnext, hprev]
  exact h.segment

theorem entry_eq_some : entry c m = some (k, v) ↔ c.key m = some k ∧ c.value m = some v := by
  rw [entry, Option.bind_eq_some_iff]
  constructor
  · rintro ⟨k', hkey, hmap⟩
    obtain ⟨v', hvalue, heq⟩ := Option.map_eq_some_iff.mp hmap
    obtain ⟨rfl, rfl⟩ := Prod.mk.inj heq
    exact ⟨hkey, hvalue⟩
  · rintro ⟨hkey, hvalue⟩
    exact ⟨k, hkey, Option.map_eq_some_iff.mpr ⟨v, hvalue, rfl⟩⟩

/-! ### Taking a node out and putting one in front -/

theorem head?_append_of_ne (hnodup : (a ++ m :: b).Nodup) :
    (if (a ++ m :: b).head? = some m then b.head? else (a ++ m :: b).head?) = (a ++ b).head? := by
  cases a with
  | nil => exact if_pos rfl
  | cons x a =>
    have hne : x ≠ m := fun heq =>
      (List.nodup_cons.mp hnodup).1 (heq ▸ List.mem_append_right a List.mem_cons_self)
    exact if_neg fun heq => hne (Option.some.inj heq)

theorem getLast?_append_of_ne (hnodup : (a ++ m :: b).Nodup) :
    (if (a ++ m :: b).getLast? = some m then a.getLast? else (a ++ m :: b).getLast?) =
      (a ++ b).getLast? := by
  obtain rfl | ⟨b, x, rfl⟩ := b.eq_nil_or_concat'
  · rw [List.append_nil, List.getLast?_concat, if_pos rfl]
  · have hne : x ≠ m := by
      rintro rfl
      have hmb := (List.nodup_append.mp hnodup).2.1
      exact (List.nodup_cons.mp hmb).1 (List.mem_append_right b (List.mem_singleton_self x))
    rw [← List.cons_append, ← List.append_assoc, ← List.append_assoc, List.getLast?_concat,
      List.getLast?_concat, if_neg fun heq => hne (Option.some.inj heq)]

theorem Chained.remove (h : Chained c (a ++ m :: b)) : Chained (remove c m) (a ++ b) := by
  have hnodup := h.nodup
  obtain ⟨hprev, hnext⟩ := h.segment.neighbours
  have hma : a.getLast? ≠ some m := fun heq =>
    (List.nodup_append.mp hnodup).2.2 m (List.mem_of_getLast? heq) m List.mem_cons_self rfl
  have hmb : b.head? ≠ some m := fun heq =>
    (List.nodup_cons.mp (List.nodup_append.mp hnodup).2.1).1 (List.mem_of_head? heq)
  have hnext' : assign c.next a.getLast? b.head? m = b.head? := by
    rw [assign_of_ne hma, hnext]
  have hprev' : assign c.prev b.head? a.getLast? m = a.getLast? := by
    rw [assign_of_ne hmb, hprev]
  refine ⟨?_, ?_, ?_, ?_, ?_⟩
  · exact hnodup.sublist ((List.sublist_cons_self m b).append_left a)
  · change Segment (assign c.next (c.prev m) (c.next m)) (assign c.prev
      (assign c.next (c.prev m) (c.next m) m) (c.prev m)) none (a ++ b) none
    rw [hprev, hnext, hnext']
    exact h.segment.unlink hnodup
  · change (if c.head = some m then assign c.next (c.prev m) (c.next m) m else c.head) = _
    rw [hprev, hnext, hnext', h.head]
    exact head?_append_of_ne hnodup
  · change (if c.tail = some m then assign c.prev
      (assign c.next (c.prev m) (c.next m) m) (c.prev m) m else c.tail) = _
    rw [hprev, hnext, hnext', hprev', h.tail]
    exact getLast?_append_of_ne hnodup
  · change c.count - 1 = _
    rw [h.count, List.length_append, List.length_append, List.length_cons]
    omega

theorem Chained.insert (h : Chained c refs) (hm : m ∉ refs) : Chained (insert c m) (m :: refs) := by
  refine ⟨List.nodup_cons.mpr ⟨hm, h.nodup⟩, ?_, rfl, ?_, ?_⟩
  · change Segment (Function.update c.next m c.head)
      (Function.update (assign c.prev c.head (some m)) m none) none (m :: refs) none
    rw [h.head]
    exact h.segment.push h.nodup hm
  · change c.tail.or (some m) = _
    rw [h.tail, List.getLast?_cons]
    cases refs.getLast? <;> rfl
  · change c.count + 1 = _
    rw [h.count, List.length_cons]

theorem Describes.split (h : Describes c (a ++ m :: b) entries) :
    ∃ ea k v eb, entries = ea ++ (k, v) :: eb ∧ a.map (entry c) = ea.map some ∧
      entry c m = some (k, v) ∧ b.map (entry c) = eb.map some := by
  have hmap := h.map_entry
  rw [List.map_append, List.map_cons] at hmap
  obtain ⟨ea, rest, rfl, ha, hrest⟩ := List.map_eq_append_iff.mp hmap.symm
  obtain ⟨e, eb, rfl, he, hb⟩ := List.map_eq_cons_iff.mp hrest
  exact ⟨ea, e.1, e.2, eb, rfl, ha.symm, he.symm, hb.symm⟩

/-! ### What the nodes hold afterwards -/

variable {c' : Cache K V}

theorem Describes.key_inj (h : Describes c refs entries) {m' : ℕ} (hm : m ∈ refs) (hm' : m' ∈ refs)
    (hkey : c.key m = some k) (hkey' : c.key m' = some k) : m = m' := by
  have hdata := (h.data_iff k m).mpr ⟨hm, hkey⟩
  rw [(h.data_iff k m').mpr ⟨hm', hkey'⟩] at hdata
  exact (Option.some.inj hdata).symm

theorem entry_congr (hkey : c'.key = c.key) (hvalue : c'.value = c.value) : entry c' = entry c := by
  funext m
  rw [entry, entry, hkey, hvalue]

variable [DecidableEq K]

theorem without_split (hnodup : ((ea ++ (k, v) :: eb).map Prod.fst).Nodup) :
    without k (ea ++ (k, v) :: eb) = ea ++ eb := by
  rw [List.map_append, List.map_cons] at hnodup
  obtain ⟨-, hkeb, hdisjoint⟩ := List.nodup_append.mp hnodup
  have hea : ∀ e ∈ ea, e.1 ≠ k := fun e he =>
    hdisjoint e.1 (List.mem_map_of_mem he) k List.mem_cons_self
  have heb : ∀ e ∈ eb, e.1 ≠ k := by
    intro e he heq
    have hmem : e.1 ∈ eb.map Prod.fst := List.mem_map_of_mem he
    rw [heq] at hmem
    exact (List.nodup_cons.mp hkeb).1 hmem
  rw [without, List.filter_append, List.filter_cons_of_neg (by simp),
    List.filter_eq_self.mpr (by simpa using hea), List.filter_eq_self.mpr (by simpa using heb)]

theorem Describes.drop (h : Describes c (a ++ m :: b) entries) (hkey : c.key m = some k)
    (hnodup : (entries.map Prod.fst).Nodup) (hrefs : (a ++ m :: b).Nodup)
    (hkeys : c'.key = c.key) (hvalues : c'.value = c.value) (hfresh : c'.fresh = c.fresh)
    (hdata : c'.data = Function.update c.data k none) :
    Describes c' (a ++ b) (without k entries) := by
  have hmem : ∀ m' ∈ a ++ b, m' ∈ a ++ m :: b := fun _ hm' =>
    ((List.sublist_cons_self m b).append_left a).mem hm'
  have hout : m ∉ a ++ b := (List.nodup_middle.mp hrefs |> List.nodup_cons.mp).1
  obtain ⟨ea, k', v, eb, rfl, ha, hm, hb⟩ := h.split
  have hk : k' = k := by
    have hkey' := (entry_eq_some.mp hm).1
    rw [hkey] at hkey'
    exact (Option.some.inj hkey').symm
  subst hk
  rw [without_split hnodup]
  refine ⟨?_, fun k₁ m₁ => ?_, fun m' hm' => ?_⟩
  · rw [entry_congr hkeys hvalues, List.map_append, List.map_append, ha, hb]
  · rw [hdata, hkeys]
    by_cases hk₁ : k₁ = k'
    · rw [hk₁, Function.update_self]
      refine iff_of_false (by simp) fun hboth => hout ?_
      rw [h.key_inj (List.mem_append_right a List.mem_cons_self) (hmem m₁ hboth.1) hkey hboth.2]
      exact hboth.1
    · rw [Function.update_of_ne hk₁, h.data_iff]
      refine and_congr_left fun hkey₁ => ⟨fun hin => ?_, hmem m₁⟩
      have hne : m₁ ≠ m := by
        rintro rfl
        rw [hkey] at hkey₁
        exact hk₁ (Option.some.inj hkey₁).symm
      obtain hleft | hright := List.mem_append.mp hin
      · exact List.mem_append_left b hleft
      · obtain heq | hright := List.mem_cons.mp hright
        · exact absurd heq hne
        · exact List.mem_append_right a hright
  · rw [hfresh]
    exact h.fresh m' (hmem m' hm')

theorem Describes.bump (h : Describes c (a ++ m :: b) entries) (hkey : c.key m = some k)
    (hnodup : (entries.map Prod.fst).Nodup) (hrefs : (a ++ m :: b).Nodup)
    (hkeys : c'.key = c.key) (hvalues : c'.value = Function.update c.value m (some v))
    (hfresh : c'.fresh = c.fresh) (hdata : c'.data = c.data) :
    Describes c' (m :: (a ++ b)) ((k, v) :: without k entries) := by
  have hperm : (m :: (a ++ b)).Perm (a ++ m :: b) := List.perm_middle.symm
  have hout : m ∉ a ++ b := (List.nodup_middle.mp hrefs |> List.nodup_cons.mp).1
  obtain ⟨ea, k', v', eb, rfl, ha, hm, hb⟩ := h.split
  have hk : k' = k := by
    have hkey' := (entry_eq_some.mp hm).1
    rw [hkey] at hkey'
    exact (Option.some.inj hkey').symm
  subst hk
  have hentry : ∀ m' ∈ a ++ b, entry c' m' = entry c m' := by
    intro m' hm'
    rw [entry, entry, hkeys, hvalues, Function.update_of_ne (ne_of_mem_of_not_mem hm' hout)]
  have hfirst : entry c' m = some (k', v) := by
    rw [entry_eq_some, hkeys, hvalues, Function.update_self]
    exact ⟨hkey, rfl⟩
  rw [without_split hnodup]
  refine ⟨?_, fun k₁ m₁ => ?_, fun m' hm' => ?_⟩
  · rw [List.map_cons, hfirst, List.map_congr_left hentry, List.map_append, ha, hb, List.map_cons,
      List.map_append]
  · rw [hdata, hkeys, h.data_iff, hperm.mem_iff]
  · rw [hfresh]
    exact h.fresh m' (hperm.mem_iff.mp hm')

theorem Describes.add (h : Describes c refs entries) (hk : c.data k = none) (v : V) :
    Describes (add c k v) (c.fresh :: refs) ((k, v) :: entries) := by
  have hne : ∀ m ∈ refs, m ≠ c.fresh := fun m hm => Nat.ne_of_lt (h.fresh m hm)
  have hkeys : ∀ m ∈ refs, (UtilCache.add c k v).key m = c.key m := fun m hm =>
    Function.update_of_ne (hne m hm) _ _
  have hkey : (UtilCache.add c k v).key c.fresh = some k := Function.update_self _ _ _
  have hvalue : (UtilCache.add c k v).value c.fresh = some v := Function.update_self _ _ _
  have hentry : ∀ m ∈ refs, entry (UtilCache.add c k v) m = entry c m := by
    intro m hm
    have hvalues : (UtilCache.add c k v).value m = c.value m :=
      Function.update_of_ne (hne m hm) _ _
    rw [entry, entry, hkeys m hm, hvalues]
  have hdata : (UtilCache.add c k v).data = Function.update c.data k (some c.fresh) := rfl
  refine ⟨?_, fun k₁ m₁ => ?_, fun m hm => ?_⟩
  · rw [List.map_cons, entry_eq_some.mpr ⟨hkey, hvalue⟩, List.map_congr_left hentry, h.map_entry,
      List.map_cons]
  · rw [hdata, List.mem_cons]
    by_cases hk₁ : k₁ = k
    · rw [hk₁, Function.update_self]
      constructor
      · intro heq
        obtain rfl := Option.some.inj heq
        exact ⟨.inl rfl, hkey⟩
      · rintro ⟨rfl | hin, hkey₁⟩
        · rfl
        · rw [hkeys m₁ hin] at hkey₁
          rw [(h.data_iff k m₁).mpr ⟨hin, hkey₁⟩] at hk
          cases hk
    · rw [Function.update_of_ne hk₁, h.data_iff]
      constructor
      · rintro ⟨hin, hkey₁⟩
        exact ⟨.inr hin, (hkeys m₁ hin).trans hkey₁⟩
      · rintro ⟨rfl | hin, hkey₁⟩
        · rw [hkey] at hkey₁
          exact absurd (Option.some.inj hkey₁).symm hk₁
        · exact ⟨hin, (hkeys m₁ hin).symm.trans hkey₁⟩
  · change m < c.fresh + 1
    obtain rfl | hin := List.mem_cons.mp hm
    · exact Nat.lt_succ_self _
    · exact Nat.lt_succ_of_lt (h.fresh m hin)

/-! ## The cache is the list -/

/-- The keys are distinct, and there are no more of them than the size. -/
structure Lru.Sound (s : Lru K V) : Prop where
  size_pos : 0 < s.size
  nodup : (s.entries.map Prod.fst).Nodup
  length_le : s.entries.length ≤ s.size

structure Stands (policy : Policy K V) (c : Cache K V) (refs : List ℕ) (s : Lru K V) : Prop where
  chained : Chained c refs
  describes : Describes c refs s.entries
  size_eq : c.size = s.size
  policy_eq : c.onEvict = policy
  calls_eq : c.calls = s.calls
  sound : s.Sound

/-- Some nodes stand for the list. -/
def Holds (policy : Policy K V) (c : Cache K V) (s : Lru K V) : Prop :=
  ∃ refs, Stands policy c refs s

variable {policy : Policy K V} {s : Lru K V}

omit [DecidableEq K] in
theorem Stands.length_eq (h : Stands policy c refs s) : refs.length = s.entries.length := by
  have hlength := congrArg List.length h.describes.map_entry
  rwa [List.length_map, List.length_map] at hlength

omit [DecidableEq K] in
theorem Stands.count_eq (h : Stands policy c refs s) : c.count = s.entries.length :=
  h.chained.count.trans h.length_eq

omit [DecidableEq K] in
theorem Stands.mem_keys_iff (h : Stands policy c refs s) :
    k ∈ s.entries.map Prod.fst ↔ ∃ m, c.data k = some m := by
  constructor
  · intro hk
    obtain ⟨e, he, rfl⟩ := List.mem_map.mp hk
    have hmem : some e ∈ refs.map (entry c) := by
      rw [h.describes.map_entry]
      exact List.mem_map_of_mem he
    obtain ⟨m, hm, hentry⟩ := List.mem_map.mp hmem
    exact ⟨m, (h.describes.data_iff e.1 m).mpr ⟨hm, (entry_eq_some.mp hentry).1⟩⟩
  · rintro ⟨m, hdata⟩
    obtain ⟨hm, hkey⟩ := (h.describes.data_iff k m).mp hdata
    have hmem : entry c m ∈ s.entries.map some := by
      rw [← h.describes.map_entry]
      exact List.mem_map_of_mem hm
    obtain ⟨e, he, hentry⟩ := List.mem_map.mp hmem
    have hkey' := (entry_eq_some.mp hentry.symm).1
    rw [hkey] at hkey'
    rw [Option.some.inj hkey']
    exact List.mem_map_of_mem he

theorem without_of_notMem (hk : k ∉ entries.map Prod.fst) : without k entries = entries := by
  refine List.filter_eq_self.mpr fun e he => ?_
  have hne : e.1 ≠ k := by
    rintro rfl
    exact hk (List.mem_map_of_mem he)
  simpa using hne

theorem Lru.Sound.without (h : s.Sound) (k : K) :
    Lru.Sound { s with entries := without k s.entries } := by
  have hsub : (UtilCache.without k s.entries).Sublist s.entries := List.filter_sublist
  exact ⟨h.size_pos, h.nodup.sublist (hsub.map Prod.fst), hsub.length_le.trans h.length_le⟩

theorem notMem_without : k ∉ (without k entries).map Prod.fst := by
  intro hk
  obtain ⟨e, he, rfl⟩ := List.mem_map.mp hk
  have hne := (List.mem_filter.mp he).2
  simp at hne

/-! ### Evicting -/

omit [DecidableEq K] in
theorem Stands.oldest (h : Stands policy c refs s) (hne : s.entries ≠ []) :
    ∃ a m ea k v, refs = a ++ [m] ∧ s.entries = ea ++ [(k, v)] ∧ c.key m = some k ∧
      c.value m = some v := by
  have hrefs : refs ≠ [] := by
    rintro rfl
    exact hne (List.length_eq_zero_iff.mp h.length_eq.symm)
  obtain rfl | ⟨a, m, rfl⟩ := refs.eq_nil_or_concat'
  · exact absurd rfl hrefs
  · obtain ⟨ea, k, v, eb, hentries, -, hm, hb⟩ := h.describes.split
    obtain ⟨hkey, hvalue⟩ := entry_eq_some.mp hm
    obtain rfl := List.map_eq_nil_iff.mp hb.symm
    exact ⟨a, m, ea, k, v, rfl, hentries, hkey, hvalue⟩

/-- Either both refuse, or the oldest entry goes on both sides. -/
theorem evict_simulates (h : Stands policy c refs s) (hne : s.entries ≠ []) :
    (∃ c' s', evict c = some (false, c') ∧ s.evict policy = some (false, s') ∧
      Stands policy c' refs s') ∨
    ∃ c' s' refs' oldest, evict c = some (true, c') ∧ s.evict policy = some (true, s') ∧
      Stands policy c' refs' s' ∧ s.entries = s'.entries ++ [oldest] ∧ s'.size = s.size := by
  obtain ⟨a, m, ea, k, v, rfl, hentries, hkey, hvalue⟩ := h.oldest hne
  have htail : c.tail = some m := by
    rw [h.chained.tail, List.getLast?_concat]
  have hevict : evict c =
      some (if policy.vetoes s.calls k v then (false, { c with calls := policy.asked s.calls })
        else (true, { remove { c with calls := policy.asked s.calls } m with
          data := Function.update c.data k none })) := by
    rw [evict, htail, Option.bind_some, hkey, Option.bind_some, hvalue, Option.map_some,
      h.policy_eq, h.calls_eq]
  have hspec : s.evict policy =
      some (if policy.vetoes s.calls k v then (false, { s with calls := policy.asked s.calls })
        else (true, { s with entries := ea, calls := policy.asked s.calls })) := by
    rw [Lru.evict, hentries, List.getLast?_concat, Option.map_some, List.dropLast_concat]
  rw [hevict, hspec]
  split_ifs with hveto
  · refine .inl ⟨_, _, rfl, rfl, h.chained.congr rfl rfl rfl rfl rfl, ?_, h.size_eq, h.policy_eq,
      rfl, h.sound.size_pos, h.sound.nodup, h.sound.length_le⟩
    exact ⟨h.describes.map_entry, h.describes.data_iff, h.describes.fresh⟩
  · have hwithout : without k s.entries = ea := by
      rw [hentries, without_split (hentries ▸ h.sound.nodup), List.append_nil]
    have hsound := h.sound.without k
    rw [hwithout] at hsound
    have hdrop : Describes { remove { c with calls := policy.asked s.calls } m with
        data := Function.update c.data k none } (a ++ []) (without k s.entries) :=
      h.describes.drop hkey h.sound.nodup h.chained.nodup rfl rfl rfl rfl
    rw [hwithout] at hdrop
    have hchained : Chained { c with calls := policy.asked s.calls } (a ++ [m]) :=
      h.chained.congr rfl rfl rfl rfl rfl
    refine .inr ⟨_, _, a ++ [], (k, v), rfl, rfl, ⟨hchained.remove.congr rfl rfl rfl rfl rfl, hdrop,
      h.size_eq, h.policy_eq, rfl, ?_⟩, hentries, rfl⟩
    exact ⟨hsound.size_pos, hsound.nodup, hsound.length_le⟩

/-! ### Setting -/

theorem Stands.bump (h : Stands policy c refs s) {m : ℕ} (hdata : c.data k = some m) (v : V) :
    Holds policy { insert (remove c m) m with value := Function.update c.value m (some v) }
      { s with entries := (k, v) :: without k s.entries } := by
  obtain ⟨hm, hkey⟩ := (h.describes.data_iff k m).mp hdata
  obtain ⟨a, b, rfl⟩ := List.append_of_mem hm
  have hout : m ∉ a ++ b := (List.nodup_cons.mp (List.nodup_middle.mp h.chained.nodup)).1
  have hdescribes : Describes
      { insert (remove c m) m with value := Function.update c.value m (some v) }
      (m :: (a ++ b)) ((k, v) :: without k s.entries) :=
    h.describes.bump hkey h.sound.nodup h.chained.nodup rfl rfl rfl rfl
  have hpresent : k ∈ s.entries.map Prod.fst := h.mem_keys_iff.mpr ⟨m, hdata⟩
  refine ⟨m :: (a ++ b), (h.chained.remove.insert hout).congr rfl rfl rfl rfl rfl, hdescribes,
    h.size_eq, h.policy_eq, h.calls_eq, h.sound.size_pos, ?_, ?_⟩
  · exact List.nodup_cons.mpr ⟨notMem_without, (h.sound.without k).nodup⟩
  · have hshorter : (without k s.entries).length < s.entries.length := by
      obtain ⟨e, he, rfl⟩ := List.mem_map.mp hpresent
      exact List.length_filter_lt_length_iff_exists.mpr ⟨e, he, by simp⟩
    exact Nat.lt_of_lt_of_le hshorter h.sound.length_le

theorem Stands.add (h : Stands policy c refs s) (hdata : c.data k = none)
    (hroom : s.entries.length < s.size) (v : V) :
    Holds policy (add c k v) { s with entries := (k, v) :: s.entries } := by
  have hfresh : c.fresh ∉ refs := fun hm => Nat.lt_irrefl _ (h.describes.fresh _ hm)
  have habsent : k ∉ s.entries.map Prod.fst := by
    rw [h.mem_keys_iff, hdata]
    rintro ⟨m, hm⟩
    cases hm
  have hne : ∀ m ∈ refs, m ≠ c.fresh := fun m hm => ne_of_mem_of_not_mem hm hfresh
  have hsegment : Segment (Function.update c.next c.fresh none)
      (Function.update c.prev c.fresh none) none refs none :=
    h.chained.segment.congr (fun m hm => Function.update_of_ne (hne m hm) _ _)
      fun m hm => Function.update_of_ne (hne m hm) _ _
  have hchained : Chained
      { c with
        fresh := c.fresh + 1
        key := Function.update c.key c.fresh (some k)
        value := Function.update c.value c.fresh (some v)
        prev := Function.update c.prev c.fresh none
        next := Function.update c.next c.fresh none
        data := Function.update c.data k (some c.fresh) } refs :=
    ⟨h.chained.nodup, hsegment, h.chained.head, h.chained.tail, h.chained.count⟩
  exact ⟨c.fresh :: refs, hchained.insert hfresh, h.describes.add hdata v, h.size_eq, h.policy_eq,
    h.calls_eq, h.sound.size_pos, List.nodup_cons.mpr ⟨habsent, h.sound.nodup⟩, hroom⟩

theorem Stands.delete (h : Stands policy c refs s) {m : ℕ} (hdata : c.data k = some m) :
    Holds policy { remove c m with data := Function.update c.data k none }
      { s with entries := without k s.entries } := by
  obtain ⟨hm, hkey⟩ := (h.describes.data_iff k m).mp hdata
  obtain ⟨a, b, rfl⟩ := List.append_of_mem hm
  exact ⟨a ++ b, h.chained.remove.congr rfl rfl rfl rfl rfl,
    h.describes.drop hkey h.sound.nodup h.chained.nodup rfl rfl rfl rfl, h.size_eq, h.policy_eq,
    h.calls_eq, h.sound.without k⟩

theorem set_simulates (h : Stands policy c refs s) (k : K) (v : Option V) :
    (set c k v).1 = (s.set policy k v).1 ∧ Holds policy (set c k v).2 (s.set policy k v).2 := by
  have hkeys := @Stands.mem_keys_iff _ _ c refs k policy s h
  rw [set.eq_def, Lru.set.eq_def]
  cases hdata : c.data k with
  | some m =>
    cases v with
    | none => exact ⟨rfl, h.delete hdata⟩
    | some v =>
      dsimp only
      rw [if_pos (hkeys.mpr ⟨m, hdata⟩)]
      exact ⟨rfl, h.bump hdata v⟩
  | none =>
    have habsent : k ∉ s.entries.map Prod.fst := by
      rw [hkeys, hdata]
      rintro ⟨m, hm⟩
      cases hm
    cases v with
    | none =>
      dsimp only
      rw [without_of_notMem habsent]
      exact ⟨rfl, refs, h⟩
    | some v =>
      dsimp only
      rw [if_neg habsent, h.count_eq, h.size_eq]
      by_cases hfull : s.entries.length = s.size
      · have hne : s.entries ≠ [] := by
          intro hnil
          rw [hnil] at hfull
          exact Nat.ne_of_lt h.sound.size_pos hfull
        rw [if_pos hfull, if_pos hfull]
        obtain ⟨c', s', hc, hs, hstands⟩ |
          ⟨c', s', refs', oldest, hc, hs, hstands, hsplit, hsize⟩ := evict_simulates h hne
        · rw [hc, hs]
          exact ⟨rfl, refs, hstands⟩
        · rw [hc, hs]
          rw [hsplit, List.map_append] at habsent
          have hdata' : c'.data k = none := by
            rw [Option.eq_none_iff_forall_ne_some]
            intro m hm
            exact habsent (List.mem_append_left _ (hstands.mem_keys_iff.mpr ⟨m, hm⟩))
          have hroom : s'.entries.length < s'.size := by
            rw [hsize, ← hfull, hsplit, List.length_append, List.length_singleton]
            exact Nat.lt_succ_self _
          exact ⟨rfl, hstands.add hdata' hroom v⟩
      · rw [if_neg hfull, if_neg hfull]
        have hlt := Nat.lt_of_le_of_ne h.sound.length_le hfull
        exact ⟨rfl, h.add hdata hlt v⟩

/-! ### Shrinking -/

variable {n : ℕ}

omit [DecidableEq K] in
theorem Stands.resized (h : Stands policy c refs s) (hn : 0 < n)
    (hfits : s.entries.length ≤ n) : Stands policy { c with size := n } refs { s with size := n } :=
  ⟨h.chained.congr rfl rfl rfl rfl rfl,
    ⟨h.describes.map_entry, h.describes.data_iff, h.describes.fresh⟩, rfl, h.policy_eq, h.calls_eq,
    hn, h.sound.nodup, hfits⟩

theorem shrink_simulates (h : Stands policy c refs s) {fuel : ℕ} (hn : 0 < n)
    (hfuel : s.entries.length ≤ fuel) : (shrink n fuel c).1 = (s.shrink policy n fuel).1 ∧
      Holds policy (shrink n fuel c).2 (s.shrink policy n fuel).2 := by
  induction fuel generalizing c refs s with
  | zero =>
    have hcount := h.count_eq
    rw [shrink, Lru.shrink, if_neg (by omega)]
    exact ⟨rfl, refs, h.resized hn (by omega)⟩
  | succ fuel ih =>
    have hcount := h.count_eq
    rw [shrink, Lru.shrink]
    by_cases hmore : n < s.entries.length
    · have hne : s.entries ≠ [] := List.length_pos_iff.mp (by omega)
      rw [if_pos (by omega), if_pos hmore]
      obtain ⟨c', s', hc, hs, hstands⟩ | ⟨c', s', refs', oldest, hc, hs, hstands, hsplit, -⟩ :=
        evict_simulates h hne
      · rw [hc, hs]
        exact ⟨rfl, refs, hstands⟩
      · rw [hc, hs]
        rw [hsplit, List.length_append, List.length_singleton] at hfuel
        exact ih hstands (by omega)
    · rw [if_neg (by omega), if_neg hmore]
      exact ⟨rfl, refs, h.resized hn (by omega)⟩

/-! ### Looking -/

theorem find?_of_mem (hnodup : (entries.map Prod.fst).Nodup) {e : K × V} (he : e ∈ entries) :
    entries.find? (·.1 = e.1) = some e := by
  induction entries with
  | nil => cases he
  | cons x xs ih =>
    obtain ⟨hx, hxs⟩ := List.nodup_cons.mp hnodup
    obtain rfl | hmem := List.mem_cons.mp he
    · exact List.find?_cons_of_pos (decide_eq_true rfl)
    · have hne : x.1 ≠ e.1 := fun heq => hx (heq ▸ List.mem_map_of_mem hmem)
      rw [List.find?_cons_of_neg (by simpa using hne)]
      exact ih hxs hmem

theorem get_eq (h : Stands policy c refs s) (k : K) :
    get c k = (s.entries.find? (·.1 = k)).map Prod.snd := by
  rw [get]
  cases hdata : c.data k with
  | none =>
    have hnone : s.entries.find? (·.1 = k) = none := by
      rw [List.find?_eq_none]
      intro e he hek
      obtain rfl := of_decide_eq_true hek
      obtain ⟨m, hm⟩ := h.mem_keys_iff.mp (List.mem_map_of_mem he)
      rw [hdata] at hm
      cases hm
    rw [hnone]
    rfl
  | some m =>
    obtain ⟨hm, hkey⟩ := (h.describes.data_iff k m).mp hdata
    have hmem : entry c m ∈ s.entries.map some := by
      rw [← h.describes.map_entry]
      exact List.mem_map_of_mem hm
    obtain ⟨e, he, hentry⟩ := List.mem_map.mp hmem
    obtain ⟨hkey', hvalue⟩ := entry_eq_some.mp hentry.symm
    rw [hkey] at hkey'
    obtain rfl := Option.some.inj hkey'
    rw [find?_of_mem h.sound.nodup he]
    exact hvalue

omit [DecidableEq K] in
theorem walk_eq {β : Type*} {f : ℕ → β} {before : Option ℕ} {fuel : ℕ}
    (h : Segment c.next c.prev before refs none) (hfuel : refs.length ≤ fuel) :
    walk c f fuel refs.head? = some (refs.map f) := by
  induction refs generalizing before fuel with
  | nil => cases fuel <;> rfl
  | cons m refs ih =>
    obtain ⟨-, hnext, hrest⟩ := h
    cases fuel with
    | zero => exact absurd hfuel (Nat.not_succ_le_zero _)
    | succ fuel =>
      rw [Option.or_none] at hnext
      have htail := ih hrest (Nat.le_of_succ_le_succ hfuel)
      rw [List.head?_cons, walk, hnext, htail]
      rfl

omit [DecidableEq K] in
theorem Stands.walk_eq {β : Type*} (h : Stands policy c refs s) (f : ℕ → β) :
    walk c f c.fresh c.head = some (refs.map f) := by
  have hsub : refs ⊆ List.range c.fresh := fun m hm => List.mem_range.mpr (h.describes.fresh m hm)
  have hlength := (List.subperm_of_subset h.chained.nodup hsub).length_le
  rw [List.length_range] at hlength
  rw [h.chained.head]
  exact UtilCache.walk_eq h.chained.segment hlength

omit [DecidableEq K] in
theorem Stands.map_fields {β : Type*} (h : Stands policy c refs s) {f : ℕ → β} {g : K × V → β}
    (hfg : ∀ m k v, c.key m = some k → c.value m = some v → f m = g (k, v)) :
    refs.map f = s.entries.map g := by
  have hmap := h.describes.map_entry
  generalize s.entries = entries at hmap
  clear h
  induction refs generalizing entries with
  | nil =>
    obtain rfl := List.map_eq_nil_iff.mp hmap.symm
    rfl
  | cons m refs ih =>
    obtain ⟨e, rest, rfl, he, hrest⟩ := List.map_eq_cons_iff.mp hmap.symm
    obtain ⟨hkey, hvalue⟩ := entry_eq_some.mp he.symm
    rw [List.map_cons, List.map_cons, hfg m e.1 e.2 hkey hvalue, ih rest hrest.symm]

omit [DecidableEq K] in
theorem pairOf_eq {m : Option ℕ} {e : Option (K × V)}
    (hm : m.map (entry c) = e.map some) : pairOf c m = .pair (e.map Prod.fst) (e.map Prod.snd) := by
  cases m with
  | none =>
    cases e with
    | none => rfl
    | some e => cases hm
  | some m =>
    cases e with
    | none => cases hm
    | some e =>
      obtain ⟨hkey, hvalue⟩ := entry_eq_some.mp (Option.some.inj hm)
      rw [pairOf, Option.bind_some, Option.bind_some, hkey, hvalue]
      rfl

theorem toSize_pos {n : Option ℚ} {size : ℕ} (h : toSize n = some size) : 0 < size := by
  obtain ⟨q, -, hq⟩ := Option.bind_eq_some_iff.mp h
  split_ifs at hq with hpos
  obtain rfl := Option.some.inj hq
  exact Int.lt_toNat.mpr hpos

/-! ### Every call -/

theorem simulates_lru (policy : Policy K V) :
    Machine.Simulates step (Lru.step policy) (Holds policy) := by
  rintro c s call ⟨refs, h⟩
  have hmap := h.describes.map_entry
  cases call with
  | set k v => exact set_simulates h k v
  | get k => exact ⟨congrArg Reply.value (get_eq h k), refs, h⟩
  | items =>
    refine ⟨congrArg Reply.items ?_, refs, h⟩
    rw [items, h.walk_eq]
    refine congrArg some (h.map_fields fun m k v hkey hvalue => ?_)
    rw [hkey, hvalue]
  | values =>
    refine ⟨congrArg Reply.values ?_, refs, h⟩
    rw [values, h.walk_eq]
    exact congrArg some (h.map_fields fun m k v _ hvalue => hvalue)
  | count => exact ⟨congrArg Reply.number h.count_eq, refs, h⟩
  | head =>
    refine ⟨pairOf_eq ?_, refs, h⟩
    rw [h.chained.head, ← List.head?_map, hmap, List.head?_map]
  | tail =>
    refine ⟨pairOf_eq ?_, refs, h⟩
    rw [h.chained.tail, ← List.getLast?_map, hmap, List.getLast?_map]
  | resize newSize =>
    dsimp only [step, Lru.step, resize]
    cases hsize : toSize newSize with
    | none => exact ⟨rfl, refs, h⟩
    | some n =>
      dsimp only
      rw [h.count_eq]
      exact shrink_simulates h (toSize_pos hsize) (Nat.le_refl _)
  | clear =>
    refine ⟨rfl, [], ⟨List.nodup_nil, trivial, rfl, rfl, rfl⟩, ⟨rfl, fun k m => ?_, ?_⟩,
      h.size_eq, h.policy_eq, h.calls_eq, h.sound.size_pos, List.nodup_nil, Nat.zero_le _⟩
    · exact iff_of_false (fun heq => by cases heq) fun hboth => by cases hboth.1
    · intro m hm
      cases hm

omit [DecidableEq K] in
theorem holds_empty (policy : Policy K V) (hn : 0 < n) :
    Holds policy (empty n policy) ⟨n, [], 0⟩ := by
  refine ⟨[], ⟨List.nodup_nil, trivial, rfl, rfl, rfl⟩, ⟨rfl, fun k m => ?_, ?_⟩, rfl, rfl, rfl, hn,
    List.nodup_nil, Nat.zero_le _⟩
  · exact iff_of_false (fun heq => by cases heq) fun hboth => by cases hboth.1
  · intro m hm
    cases hm

/-- Nobody can tell the cache from the list of its entries, and its nodes stand for that list. -/
theorem cache_is_lru (policy : Policy K V) {size : Option ℚ} {c : Cache K V}
    (hnew : new size policy = some c) (calls : List (Call K V)) :
    ∃ n, toSize size = some n ∧
      Machine.replies step c calls = Machine.replies (Lru.step policy) ⟨n, [], 0⟩ calls ∧
      Holds policy (Machine.run (Machine.next step) c calls)
        (Machine.run (Machine.next (Lru.step policy)) ⟨n, [], 0⟩ calls) := by
  obtain ⟨n, hn, rfl⟩ := Option.map_eq_some_iff.mp hnew
  have hempty := holds_empty policy (toSize_pos hn)
  have hsimulates := simulates_lru policy
  exact ⟨n, hn, hsimulates.replies hempty calls, hsimulates.run hempty calls⟩

/-! ### Without a callback -/

variable {l : Lru K V}

omit [DecidableEq K] in
theorem Lru.evict_absent (h : l.entries ≠ []) :
    l.evict .absent = some (true, { l with entries := l.entries.dropLast }) := by
  unfold Lru.evict
  rw [List.getLast?_eq_some_getLast h]
  rfl

theorem Lru.set_absent (h : l.Sound) (k : K) (v : V) :
    (l.set .absent k (some v)).2 =
      { l with entries := ((k, v) :: UtilCache.without k l.entries).take l.size } := by
  have hlength := h.length_le
  have hsize := h.size_pos
  unfold Lru.set
  dsimp only
  split_ifs with hk hfull
  · have hshorter : (UtilCache.without k l.entries).length < l.entries.length := by
      obtain ⟨e, he, hek⟩ := List.mem_map.mp hk
      refine List.length_filter_lt_length_iff_exists.mpr ⟨e, he, ?_⟩
      simpa using hek
    rw [List.take_of_length_le (by rw [List.length_cons]; omega)]
  · have hne : l.entries ≠ [] := fun hnil => by
      rw [hnil, List.length_nil] at hfull
      omega
    rw [Lru.evict_absent hne, without_of_notMem hk]
    dsimp only
    obtain ⟨n, hn⟩ : ∃ n, l.size = n + 1 := ⟨l.size - 1, by omega⟩
    rw [hn, List.take_succ_cons, List.dropLast_eq_take, hfull, hn, Nat.add_sub_cancel]
  · rw [without_of_notMem hk, List.take_of_length_le (by rw [List.length_cons]; omega)]

omit [DecidableEq K] in
theorem Lru.shrink_absent {fuel : ℕ} (h : l.entries.length ≤ n + fuel) :
    (Lru.shrink .absent n fuel l).2 = { l with size := n, entries := l.entries.take n } := by
  induction fuel generalizing l with
  | zero =>
    rw [Lru.shrink, List.take_of_length_le (l := l.entries) (by simpa using h)]
  | succ fuel ih =>
    rw [Lru.shrink]
    split_ifs with hn
    · rw [Lru.evict_absent (List.ne_nil_of_length_pos (by omega))]
      dsimp only
      have hshort : l.entries.dropLast.length ≤ n + fuel := by
        rw [List.length_dropLast]
        omega
      rw [ih hshort]
      dsimp only
      rw [List.dropLast_eq_take, List.take_take, Nat.min_eq_left (by omega)]
    · rw [List.take_of_length_le (by omega)]

/-! ### With an answer for one call -/

def Lru.get (l : Lru K V) (k : K) : Option V := (l.entries.find? (·.1 = k)).map Prod.snd

theorem find?_cons_without (entries : List (K × V)) (k k' : K) (v : V) :
    ((((k, v) :: UtilCache.without k entries).find? (·.1 = k')).map Prod.snd) =
      Function.update (fun k' => (entries.find? (·.1 = k')).map Prod.snd) k (some v) k' := by
  by_cases hk : k' = k
  · rw [hk, Function.update_self, List.find?_cons_of_pos (by simp), Option.map_some]
  · rw [Function.update_of_ne hk, List.find?_cons_of_neg (by simpa using Ne.symm hk),
      UtilCache.without, List.find?_filter]
    congr 2
    funext e
    by_cases he : e.1 = k'
    · simp [he, hk]
    · simp [he]

theorem find?_without (entries : List (K × V)) (k k' : K) :
    ((UtilCache.without k entries).find? (·.1 = k')).map Prod.snd =
      Function.update (fun k' => (entries.find? (·.1 = k')).map Prod.snd) k none k' := by
  by_cases hk : k' = k
  · rw [hk, Function.update_self, Option.map_eq_none_iff, List.find?_eq_none]
    intro e he
    have hne := (List.mem_filter.mp he).2
    simpa using hne
  · rw [Function.update_of_ne hk, UtilCache.without, List.find?_filter]
    congr 2
    funext e
    by_cases he : e.1 = k'
    · simp [he, hk]
    · simp [he]

/-- What becomes of the values, of the reply and of the number of calls of `on_evict` when a value
is set and `on_evict` answers `veto` this time. -/
inductive SetEffect (before : K → Option V) (calls : ℕ) (full : Prop) (oldest : Option (K × V))
    (k : K) (v : V) (veto : Bool) : Reply K V → (K → Option V) → ℕ → Prop
  | fits (hroom : before k ≠ none ∨ ¬full) : SetEffect before calls full oldest k v veto
      (.boolean true) (Function.update before k (some v)) calls
  | evicts {k' : K} {v' : V} (hk : before k = none) (hfull : full)
      (holdest : oldest = some (k', v')) (hbefore : before k' = some v') (hveto : veto = false) :
      SetEffect before calls full oldest k v veto (.boolean true)
        (Function.update (Function.update before k' none) k (some v)) (calls + 1)
  | vetoed {k' : K} {v' : V} (hk : before k = none) (hfull : full)
      (holdest : oldest = some (k', v')) (hbefore : before k' = some v') (hveto : veto = true) :
      SetEffect before calls full oldest k v veto (.boolean false) before (calls + 1)

theorem Lru.get_ne_none (hk : k ∈ l.entries.map Prod.fst) : l.get k ≠ none := by
  obtain ⟨e, he, rfl⟩ := List.mem_map.mp hk
  unfold Lru.get
  rw [ne_eq, Option.map_eq_none_iff, List.find?_eq_none]
  intro h
  exact h e he (decide_eq_true rfl)

theorem Lru.get_eq_none (hk : k ∉ l.entries.map Prod.fst) : l.get k = none := by
  unfold Lru.get
  rw [Option.map_eq_none_iff, List.find?_eq_none]
  intro e he hek
  exact hk (of_decide_eq_true hek ▸ List.mem_map_of_mem he)

theorem dropLast_eq_without {e : K × V} (hnodup : (entries.map Prod.fst).Nodup)
    (hlast : entries.getLast? = some e) : entries.dropLast = UtilCache.without e.1 entries := by
  obtain ⟨init, rfl⟩ : ∃ init, entries = init ++ [e] :=
    ⟨entries.dropLast, (List.dropLast_append_getLast? e hlast).symm⟩
  have hnot : e.1 ∉ init.map Prod.fst := by
    rw [List.map_append, List.nodup_append] at hnodup
    exact fun hmem => hnodup.2.2 e.1 hmem e.1 (List.mem_singleton_self _) rfl
  rw [List.dropLast_concat, UtilCache.without, List.filter_append]
  have hinit := without_of_notMem hnot
  unfold UtilCache.without at hinit
  rw [hinit]
  simp

theorem Lru.set_effect (h : l.Sound) (k : K) (v : V) (veto : Bool) :
    SetEffect l.get l.calls (l.entries.length = l.size) l.entries.getLast? k v veto
      (l.set (.ask fun _ _ _ => veto) k (some v)).1
      (l.set (.ask fun _ _ _ => veto) k (some v)).2.get
      (l.set (.ask fun _ _ _ => veto) k (some v)).2.calls := by
  have hfits : Lru.get { l with entries := (k, v) :: UtilCache.without k l.entries } =
      Function.update l.get k (some v) := funext (find?_cons_without l.entries k · v)
  unfold Lru.set
  dsimp only
  split_ifs with hk hfull
  · rw [hfits]
    exact .fits (.inl (Lru.get_ne_none hk))
  · have hne : l.entries ≠ [] := fun hnil => by
      have := h.size_pos
      rw [hnil, List.length_nil] at hfull
      omega
    obtain ⟨e, he⟩ : ∃ e, l.entries.getLast? = some e :=
      ⟨_, List.getLast?_eq_some_getLast hne⟩
    have hbefore : l.get e.1 = some e.2 := by
      unfold Lru.get
      rw [find?_of_mem h.nodup (List.mem_of_getLast? he)]
      rfl
    unfold Lru.evict
    rw [he, Option.map_some]
    cases veto with
    | true => exact .vetoed (Lru.get_eq_none hk) hfull rfl hbefore rfl
    | false =>
      have hget : Lru.get { l with calls := l.calls + 1,
                                   entries := (k, v) :: l.entries.dropLast } =
          Function.update (Function.update l.get e.1 none) k (some v) := by
        funext k'
        have hnot : k ∉ l.entries.dropLast.map Prod.fst := fun hmem =>
          hk ((List.dropLast_sublist _).map Prod.fst |>.subset hmem)
        have hcons := find?_cons_without l.entries.dropLast k k' v
        rw [without_of_notMem hnot] at hcons
        refine hcons.trans ?_
        congr 1
        funext k''
        rw [dropLast_eq_without h.nodup he]
        exact find?_without l.entries e.1 k''
      simp only [Policy.vetoes, Policy.asked, Bool.false_eq_true, if_false, hget]
      exact .evicts (Lru.get_eq_none hk) hfull rfl hbefore rfl
  · rw [without_of_notMem hk] at hfits
    rw [hfits]
    exact .fits (.inr hfull)

omit [DecidableEq K] in
/-- `on_evict` may be another function from now on. -/
theorem Holds.answering (h : Holds policy c l) (policy' : Policy K V) :
    Holds policy' { c with onEvict := policy' } l := by
  obtain ⟨refs, h⟩ := h
  exact ⟨refs,
    ⟨h.chained.nodup, h.chained.segment, h.chained.head, h.chained.tail, h.chained.count⟩,
    ⟨h.describes.map_entry, h.describes.data_iff, h.describes.fresh⟩, h.size_eq, rfl, h.calls_eq,
    h.sound⟩

/-- The cache is one that its methods can have built. -/
def Wellformed (c : Cache K V) : Prop := ∃ policy l, Holds policy c l

/-- What `on_evict` is asked about. -/
def oldest (c : Cache K V) : Option (K × V) :=
  (c.tail.bind c.key).bind fun k => (c.tail.bind c.value).map fun v => (k, v)

theorem Holds.get_eq (h : Holds policy c l) : get c = l.get := by
  obtain ⟨refs, h⟩ := h
  exact funext (UtilCache.get_eq h)

theorem Holds.oldest_eq (h : Holds policy c l) : oldest c = l.entries.getLast? := by
  obtain ⟨hkey, hvalue⟩ := Reply.pair.inj (simulates_lru policy c l .tail h).1
  unfold oldest
  rw [hkey, hvalue]
  cases l.entries.getLast? <;> rfl

omit [DecidableEq K] in
theorem Holds.full_iff (h : Holds policy c l) :
    c.count = c.size ↔ l.entries.length = l.size := by
  obtain ⟨refs, h⟩ := h
  rw [h.count_eq, h.size_eq]

omit [DecidableEq K] in
theorem Holds.calls_eq (h : Holds policy c l) : c.calls = l.calls := by
  obtain ⟨refs, h⟩ := h
  exact h.calls_eq

theorem set_effect (h : Wellformed c) (k : K) (v : V) (veto : Bool) :
    SetEffect (get c) c.calls (c.count = c.size) (oldest c) k v veto
        (set { c with onEvict := .ask fun _ _ _ => veto } k (some v)).1
        (get (set { c with onEvict := .ask fun _ _ _ => veto } k (some v)).2)
        (set { c with onEvict := .ask fun _ _ _ => veto } k (some v)).2.calls ∧
      Wellformed (set { c with onEvict := .ask fun _ _ _ => veto } k (some v)).2 := by
  obtain ⟨policy, l, h⟩ := h
  obtain ⟨hreply, hholds⟩ :=
    simulates_lru (.ask fun _ _ _ => veto) _ l (.set k (some v)) (h.answering _)
  have hsound : l.Sound := by
    obtain ⟨refs, h⟩ := h
    exact h.sound
  have heffect := Lru.set_effect hsound k v veto
  refine ⟨?_, _, _, hholds⟩
  have hreply' : (set { c with onEvict := .ask fun _ _ _ => veto } k (some v)).1 =
      (l.set (.ask fun _ _ _ => veto) k (some v)).1 := hreply
  have hget := hholds.get_eq
  have hcalls := hholds.calls_eq
  dsimp only [step, Lru.step] at hget hcalls
  rw [hreply', hget, hcalls, h.get_eq, h.calls_eq, h.oldest_eq, propext h.full_iff]
  exact heffect

theorem set_none_effect (h : Wellformed c) (k : K) :
    get (set c k none).2 = Function.update (get c) k none ∧ Wellformed (set c k none).2 := by
  obtain ⟨policy, l, h⟩ := h
  obtain ⟨-, hholds⟩ := simulates_lru policy c l (.set k none) h
  refine ⟨?_, _, _, hholds⟩
  have hget := hholds.get_eq
  dsimp only [step, Lru.step] at hget
  rw [hget, h.get_eq]
  exact funext (find?_without l.entries k)

/-- A key that has a value keeps its place for `on_evict`, whatever that is. -/
theorem set_present_effect (h : Wellformed c) (hk : get c k ≠ none) (v : V) :
    get (set c k (some v)).2 = Function.update (get c) k (some v) ∧
      Wellformed (set c k (some v)).2 := by
  obtain ⟨policy, l, h⟩ := h
  obtain ⟨-, hholds⟩ := simulates_lru policy c l (.set k (some v)) h
  refine ⟨?_, _, _, hholds⟩
  have hget := hholds.get_eq
  have hmem : k ∈ l.entries.map Prod.fst := by
    by_contra hnot
    rw [h.get_eq, Lru.get_eq_none hnot] at hk
    exact hk rfl
  dsimp only [step, Lru.step] at hget
  rw [hget, h.get_eq]
  unfold Lru.set
  dsimp only
  rw [if_pos hmem]
  exact funext (find?_cons_without l.entries k · v)

theorem evict_refused {c' : Cache K V} (h : evict c = some (false, c')) :
    ∃ n, c' = { c with calls := n } := by
  unfold evict at h
  obtain ⟨tail, -, h⟩ := Option.bind_eq_some_iff.mp h
  obtain ⟨k', -, h⟩ := Option.bind_eq_some_iff.mp h
  obtain ⟨v', -, h⟩ := Option.map_eq_some_iff.mp h
  split_ifs at h
  · obtain ⟨-, rfl⟩ := Prod.mk.inj h
    exact ⟨_, rfl⟩
  · cases (Prod.mk.inj h).1

/-- Where the value is not taken, nothing but a call of `on_evict` has happened. -/
theorem set_refused {v : Option V} (h : (set c k v).1 = .boolean false) :
    ∃ n, (set c k v).2 = { c with calls := n } := by
  unfold set at h ⊢
  split at h
  · cases h
  · cases h
  · cases h
  · split_ifs at h with hfull
    · rw [if_pos hfull]
      split at h
      · cases h
      · rename_i c' hevict
        exact evict_refused hevict
      · cases h
    · cases h

omit [DecidableEq K] in
theorem toSize_natCast (hn : 0 < n) : toSize (some (n : ℚ)) = some n := by
  unfold toSize
  rw [Option.bind_some, ← Int.cast_natCast, Rat.floor_intCast]
  simp [hn]

def keepFirst : Policy ℕ ℕ := .ask fun _ k _ => decide (k = 1)

def threeEntries : List (Call ℕ ℕ) := [.set 1 (some 4), .set 2 (some 5), .set 3 (some 6), .items]

theorem toSize_five_halves : toSize (some (5 / 2)) = some 2 := by decide +kernel

/-- The first entry may not be evicted, and so the third one is not added. -/
theorem guarded_cache_is_lru :
    ∃ n, toSize (some (5 / 2)) = some n ∧
      Machine.replies step (empty 2 keepFirst) threeEntries =
        Machine.replies (Lru.step keepFirst) ⟨n, [], 0⟩ threeEntries ∧
      Holds keepFirst (Machine.run (Machine.next step) (empty 2 keepFirst) threeEntries)
        (Machine.run (Machine.next (Lru.step keepFirst)) ⟨n, [], 0⟩ threeEntries) :=
  cache_is_lru keepFirst (congrArg (Option.map fun n => empty n keepFirst) toSize_five_halves)
    threeEntries

end

end Prosody.UtilCache
