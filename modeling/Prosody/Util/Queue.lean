import Mathlib.Data.List.Basic
import Prosody.Library.Circular
import Prosody.Library.Simulation

/-! # The bounded queue (`util/queue.lua`) -/

namespace Prosody.UtilQueue

/-! ## The queue -/

/-- The upvalues of a queue. The values of Lua are `α`, without `nil`. -/
structure Queue (α : Type*) where
  size : ℕ
  allowWrapping : Bool
  head : ℕ
  tail : ℕ
  items : ℕ
  t : ℕ → Option α

inductive Reply (α : Type*)
  | pushed
  | full
  | item (x : Option α)
  | count (n : ℕ)
  | items (xs : List (ℕ × Option α))

inductive Call (α : Type*)
  | push (x : α)
  | pop
  | peek
  | count
  | items

section

variable {α : Type*}

def new (size : ℕ) (allowWrapping : Bool) : Queue α :=
  { size := size, allowWrapping := allowWrapping, head := 1, tail := 1, items := 0
    t := fun _ => none }

/-- The tail goes to the next oldest item. -/
def advance (q : Queue α) : Queue α :=
  { q with tail := q.tail % q.size + 1, items := q.items - 1 }

def insert (q : Queue α) (x : α) : Queue α :=
  { q with
    t := Function.update q.t q.head (some x)
    items := q.items + 1
    head := q.head % q.size + 1 }

def push (q : Queue α) (x : α) : Reply α × Queue α :=
  if q.size ≤ q.items then
    if q.allowWrapping then (.pushed, insert (advance q) x) else (.full, q)
  else (.pushed, insert q x)

/-- The number zero is left in the place of the item. -/
def pop (zero : α) (q : Queue α) : Reply α × Queue α :=
  if q.items = 0 then (.item none, q)
  else (.item (q.t q.tail), advance { q with t := Function.update q.t q.tail (some zero) })

def peek (q : Queue α) : Reply α :=
  if q.items = 0 then .item none else .item (q.t q.tail)

def readPos (q : Queue α) (pos : ℕ) : ℕ :=
  if q.size < q.tail + pos then (q.tail + pos) % q.size else q.tail + pos

/-- What a `for` loop over `items()` gets from the position on. -/
def itemsFrom (q : Queue α) (pos : ℕ) : List (ℕ × Option α) :=
  if q.items ≤ pos then [] else (pos + 1, q.t (readPos q pos)) :: itemsFrom q (pos + 1)
termination_by q.items - pos

def step (zero : α) (q : Queue α) : Call α → Reply α × Queue α
  | .push x => push q x
  | .pop => pop zero q
  | .peek => (peek q, q)
  | .count => (.count q.items, q)
  | .items => (.items (itemsFrom q 0), q)

/-! ## The list it stands for -/

/-- A list of at most `size` elements, the oldest one first. -/
def listStep (size : ℕ) (wrap : Bool) (xs : List α) : Call α → Reply α × List α
  | .push x =>
    if xs.length < size then (.pushed, xs ++ [x])
    else if wrap then (.pushed, xs.tail ++ [x])
    else (.full, xs)
  | .pop => (.item xs.head?, xs.tail)
  | .peek => (.item xs.head?, xs)
  | .count => (.count xs.length, xs)
  | .items => (.items (xs.mapIdx fun i x => (i + 1, some x)), xs)

/-- The items stand one after the other from `start` on, where positions count from one. -/
structure Stands (size : ℕ) (wrap : Bool) (start : ℕ) (q : Queue α) (xs : List α) : Prop where
  size_eq : q.size = size
  wrap_eq : q.allowWrapping = wrap
  items_eq : q.items = xs.length
  items_le : q.items ≤ size
  start_lt : start < size
  tail_eq : q.tail = start + 1
  head_eq : q.head = (start + q.items) % size + 1
  window_eq : Circular.window (fun k => q.t (k + 1)) size start q.items = xs.map some

def Holds (size : ℕ) (wrap : Bool) (q : Queue α) (xs : List α) : Prop :=
  ∃ start, Stands size wrap start q xs

variable {size start : ℕ} {wrap : Bool} {q : Queue α} {x : α} {xs : List α}

theorem update_shift {t : ℕ → Option α} {p : ℕ} {v : Option α} :
    (fun k => Function.update t (p + 1) v (k + 1)) =
      Function.update (fun k => t (k + 1)) p v := by
  funext k
  by_cases hk : k = p
  · rw [hk, Function.update_self, Function.update_self]
  · rw [Function.update_of_ne hk, Function.update_of_ne (fun heq => hk (Nat.succ.inj heq))]

theorem Stands.insert (h : Stands size wrap start q xs) (x : α) (hroom : xs.length < size) :
    Stands size wrap start (insert q x) (xs ++ [x]) := by
  have hitems := h.items_eq
  refine ⟨h.size_eq, h.wrap_eq, ?_, ?_, h.start_lt, h.tail_eq, ?_, ?_⟩
  · change q.items + 1 = _
    rw [hitems, List.length_append, List.length_singleton]
  · change q.items + 1 ≤ size
    omega
  · change q.head % q.size + 1 = (start + (q.items + 1)) % size + 1
    rw [h.head_eq, h.size_eq, Nat.mod_add_mod, Nat.add_assoc]
  · change Circular.window (fun k => Function.update q.t q.head (some x) (k + 1)) size start
      (q.items + 1) = _
    rw [h.head_eq, update_shift, Circular.window_push (by omega), h.window_eq, List.map_append]
    rfl

theorem Stands.advance (h : Stands size wrap start q (x :: xs)) :
    Stands size wrap ((start + 1) % size) (advance q) xs := by
  have hstart := h.start_lt
  have hitems : q.items = xs.length + 1 := h.items_eq
  have hle := h.items_le
  have hless : q.items - 1 = xs.length := by omega
  refine ⟨h.size_eq, h.wrap_eq, hless, ?_, Nat.mod_lt _ (by omega), ?_, ?_, ?_⟩
  · change q.items - 1 ≤ size
    omega
  · change q.tail % q.size + 1 = _
    rw [h.tail_eq, h.size_eq]
  · change q.head = ((start + 1) % size + (q.items - 1)) % size + 1
    have hsum : start + 1 + xs.length = start + q.items := by omega
    rw [hless, Nat.mod_add_mod, hsum, h.head_eq]
  · change Circular.window (fun k => q.t (k + 1)) size ((start + 1) % size) (q.items - 1) = _
    have hwindow := h.window_eq
    rw [hitems, Circular.window_cons, List.map_cons] at hwindow
    rw [Circular.window_mod, hless]
    exact (List.cons.inj hwindow).2

theorem Stands.oldest (h : Stands size wrap start q (x :: xs)) : q.t q.tail = some x := by
  have hitems : q.items = xs.length + 1 := h.items_eq
  have hwindow := h.window_eq
  rw [hitems, Circular.window_cons, List.map_cons, Nat.mod_eq_of_lt h.start_lt] at hwindow
  rw [h.tail_eq]
  exact (List.cons.inj hwindow).1

theorem Stands.update {p : ℕ} (h : Stands size wrap start q xs) (v : Option α)
    (hp : ∀ i < q.items, (start + i) % size ≠ p) :
    Stands size wrap start { q with t := Function.update q.t (p + 1) v } xs := by
  refine ⟨h.size_eq, h.wrap_eq, h.items_eq, h.items_le, h.start_lt, h.tail_eq, h.head_eq, ?_⟩
  change Circular.window (fun k => Function.update q.t (p + 1) v (k + 1)) size start q.items = _
  rw [update_shift, Circular.window_update hp, h.window_eq]

theorem Stands.pop (h : Stands size wrap start q (x :: xs)) (zero : α) :
    Stands size wrap ((start + 1) % size)
      (UtilQueue.advance { q with t := Function.update q.t q.tail (some zero) }) xs := by
  have hstart := h.start_lt
  have hitems : q.items = xs.length + 1 := h.items_eq
  have hle := h.items_le
  have hfree : ∀ i < (UtilQueue.advance q).items, ((start + 1) % size + i) % size ≠ start := by
    intro i hi
    replace hi : i < q.items - 1 := hi
    intro heq
    rw [Nat.mod_add_mod] at heq
    exact Circular.mod_ne (by omega) (by omega) ((Nat.mod_eq_of_lt hstart).trans heq.symm)
  change Stands size wrap _
    { UtilQueue.advance q with t := Function.update q.t q.tail (some zero) } xs
  rw [h.tail_eq]
  exact h.advance.update (some zero) hfree

theorem Stands.readPos_eq (h : Stands size wrap start q xs) {pos : ℕ} (hpos : pos < q.items) :
    readPos q pos = (start + pos) % size + 1 := by
  have hstart := h.start_lt
  have hle := h.items_le
  rw [readPos, h.tail_eq, h.size_eq]
  split_ifs with hover
  · have hsum : start + pos = start + pos - size + size := by omega
    have hsum' : start + 1 + pos = start + pos - size + 1 + size := by omega
    rw [hsum', hsum, Nat.add_mod_right, Nat.add_mod_right, Nat.mod_eq_of_lt (by omega),
      Nat.mod_eq_of_lt (by omega)]
    omega
  · rw [Nat.mod_eq_of_lt (by omega)]
    omega

theorem Stands.item (h : Stands size wrap start q xs) {pos : ℕ} (hpos : pos < q.items) :
    q.t (readPos q pos) = xs[pos]? := by
  have hget := congrArg (·[pos]?) h.window_eq
  have hlt : pos < xs.length := by
    rw [← h.items_eq]
    exact hpos
  rw [Circular.getElem?_window, if_pos hpos, List.getElem?_map,
    List.getElem?_eq_getElem hlt] at hget
  rw [h.readPos_eq hpos, List.getElem?_eq_getElem hlt]
  exact Option.some.inj hget

theorem Stands.itemsFrom_eq (h : Stands size wrap start q xs) (pos : ℕ) :
    itemsFrom q pos = (xs.drop pos).mapIdx fun i x => (pos + i + 1, some x) := by
  have hitems := h.items_eq
  fun_induction itemsFrom q pos with
  | case1 pos hend =>
    rw [List.drop_eq_nil_of_le (by omega), List.mapIdx_nil]
  | case2 pos hmore ih =>
    have hlt : pos < xs.length := by omega
    rw [ih, h.item (by omega), List.drop_eq_getElem_cons hlt, List.mapIdx_cons,
      List.getElem?_eq_getElem hlt]
    refine congrArg _ (congrArg (List.mapIdx · (xs.drop (pos + 1))) ?_)
    funext i x
    rw [Nat.add_right_comm pos 1 i, Nat.add_assoc pos i 1]

/-! ## The queue is the list -/

theorem push_simulates (h : Stands size wrap start q xs) (x : α) :
    (push q x).1 = (listStep size wrap xs (.push x)).1 ∧
      Holds size wrap (push q x).2 (listStep size wrap xs (.push x)).2 := by
  have hitems := h.items_eq
  have hle := h.items_le
  have hstart := h.start_lt
  rw [push, h.size_eq, h.wrap_eq]
  dsimp only [listStep]
  by_cases hroom : xs.length < size
  · rw [if_neg (by omega), if_pos hroom]
    exact ⟨rfl, start, h.insert x hroom⟩
  · rw [if_pos (by omega), if_neg hroom]
    cases wrap with
    | false => exact ⟨rfl, start, h⟩
    | true =>
      cases xs with
      | nil => exact absurd (Nat.lt_of_le_of_lt (Nat.zero_le start) hstart) hroom
      | cons y ys =>
        rw [List.length_cons] at hitems
        exact ⟨rfl, _, h.advance.insert x (by omega)⟩

theorem pop_simulates (h : Stands size wrap start q xs) (zero : α) :
    (pop zero q).1 = .item xs.head? ∧ Holds size wrap (pop zero q).2 xs.tail := by
  have hitems := h.items_eq
  rw [pop]
  cases xs with
  | nil =>
    rw [if_pos (show q.items = 0 from hitems)]
    exact ⟨rfl, start, h⟩
  | cons x xs =>
    rw [List.length_cons] at hitems
    rw [if_neg (by omega), h.oldest]
    exact ⟨rfl, _, h.pop zero⟩

theorem peek_eq (h : Stands size wrap start q xs) : peek q = .item xs.head? := by
  have hitems := h.items_eq
  rw [peek]
  cases xs with
  | nil => exact if_pos hitems
  | cons x xs =>
    rw [List.length_cons] at hitems
    rw [if_neg (by omega), h.oldest]
    rfl

theorem simulates_list (size : ℕ) (wrap : Bool) (zero : α) :
    Machine.Simulates (step zero) (listStep size wrap) (Holds size wrap) := by
  intro q xs call hholds
  obtain ⟨start, h⟩ := hholds
  cases call with
  | push x => exact push_simulates h x
  | pop => exact pop_simulates h zero
  | peek => exact ⟨peek_eq h, start, h⟩
  | count => exact ⟨congrArg Reply.count h.items_eq, start, h⟩
  | items =>
    refine ⟨congrArg Reply.items ?_, start, h⟩
    rw [h.itemsFrom_eq, List.drop_zero]
    refine congrArg (List.mapIdx · xs) ?_
    funext i x
    rw [Nat.zero_add]

theorem holds_new (wrap : Bool) (hsize : 1 ≤ size) : Holds size wrap (@new α size wrap) [] :=
  ⟨0, rfl, rfl, rfl, Nat.zero_le _, hsize, rfl, rfl, rfl⟩

/-- Nobody can tell the queue from the list, which never gets longer than the size. -/
theorem queue_is_a_list (wrap : Bool) (zero : α) (hsize : 1 ≤ size) (calls : List (Call α)) :
    Machine.replies (step zero) (new size wrap) calls =
        Machine.replies (listStep size wrap) [] calls ∧
      (Machine.run (Machine.next (listStep size wrap)) [] calls).length ≤ size := by
  have hnew := @holds_new α size wrap hsize
  refine ⟨(simulates_list size wrap zero).replies hnew calls, ?_⟩
  obtain ⟨start, h⟩ := (simulates_list size wrap zero).run hnew calls
  rw [← h.items_eq]
  exact h.items_le

/-- Three items in a queue of two, where the oldest one is dropped. -/
theorem wrapping_queue_is_a_list :
    Machine.replies (listStep 2 true) ([] : List ℕ) [.push 5, .push 6, .push 7, .items] =
        [.pushed, .pushed, .pushed, .items [(1, some 6), (2, some 7)]] ∧
      Machine.replies (step 0) (new 2 true) [.push 5, .push 6, .push 7, .items] =
        Machine.replies (listStep 2 true) [] [.push 5, .push 6, .push 7, .items] :=
  ⟨rfl, (@queue_is_a_list ℕ 2 true 0 (by decide) _).1⟩

end

end Prosody.UtilQueue
