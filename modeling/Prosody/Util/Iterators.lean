import Mathlib.Data.List.Induction
import Mathlib.Data.List.TakeDrop
import Prosody.Library.Circular

/-! # Iterators (`util/iterators.lua`) -/

namespace Prosody.Iterators

variable {σ V : Type*}

/-- The values that a call returns. -/
abbrev Tuple (V : Type*) := List (Option V)

def first (ret : Tuple V) : Option V := ret.head?.join

/-- The triple `f, s, var` of an iterator. A call may change what `f` and `s` keep, and an error is
`none`. -/
structure Iterator (σ V : Type*) where
  f : σ → Option V → Option (σ × Tuple V)
  s : σ
  var : Option V

/-- Called again and again with the first value of the call before, the function returns the values
of the list, and then `nil`. -/
def Calls (f : σ → Option V → Option (σ × Tuple V)) : σ → Option V → List (Tuple V) → Prop
  | s, var, [] => ∃ s' ret, f s var = some (s', ret) ∧ first ret = none
  | s, var, ret :: l =>
    ∃ s' v, f s var = some (s', ret) ∧ first ret = some v ∧ Calls f s' (some v) l

def Iterator.Enumerates (it : Iterator σ V) (l : List (Tuple V)) : Prop :=
  Calls it.f it.s it.var l

/-- What a combinator returns, unless it raises an error or never returns. -/
def Denotes (it : Option (Iterator σ V)) (l : List (Tuple V)) : Prop :=
  ∃ it', it = some it' ∧ it'.Enumerates l

variable {l : List (Tuple V)} {var : Option V} {f : σ → Option V → Option (σ × Tuple V)}

theorem Calls.first {s : σ} (h : Calls f s var l) : ∀ ret ∈ l, ∃ v, first ret = some v := by
  induction l generalizing s var with
  | nil => exact fun ret hret => absurd hret List.not_mem_nil
  | cons ret l ih =>
    obtain ⟨s', v, -, hv, hl⟩ := h
    exact List.forall_mem_cons.mpr ⟨⟨v, hv⟩, ih hl⟩

theorem Calls.unique {s : σ}
    {l' : List (Tuple V)} (h : Calls f s var l) (h' : Calls f s var l') : l = l' := by
  induction l generalizing s var l' with
  | nil =>
    obtain ⟨s', ret, hcall, hnil⟩ := h
    cases l' with
    | nil => rfl
    | cons ret' l' =>
      obtain ⟨s'', v, hcall', hv, -⟩ := h'
      cases hcall.symm.trans hcall'
      cases hnil.symm.trans hv
  | cons ret l ih =>
    obtain ⟨s', v, hcall, hv, hl⟩ := h
    cases l' with
    | nil =>
      obtain ⟨s'', ret', hcall', hnil⟩ := h'
      cases hcall.symm.trans hcall'
      cases hnil.symm.trans hv
    | cons ret' l' =>
      obtain ⟨s'', v', hcall', hv', hl'⟩ := h'
      cases hcall.symm.trans hcall'
      cases hv.symm.trans hv'
      rw [ih hl hl']

/-- An iterator that counts the tuples it has returned. -/
theorem calls_of_count {f : ℕ → Option V → Option (ℕ × Tuple V)}
    (hfirst : ∀ ret ∈ l, ∃ v, first ret = some v)
    (hnext : ∀ i (hi : i < l.length) var, f i var = some (i + 1, l[i]))
    (hend : ∀ var, ∃ i ret, f l.length var = some (i, ret) ∧ first ret = none) (i : ℕ)
    (hi : i ≤ l.length) (var : Option V) : Calls f i var (l.drop i) := by
  induction hn : l.length - i generalizing i var with
  | zero =>
    rw [List.drop_of_length_le (by omega), show i = l.length by omega]
    exact hend var
  | succ n ih =>
    have hlt : i < l.length := by omega
    rw [List.drop_eq_getElem_cons hlt]
    obtain ⟨v, hv⟩ := hfirst l[i] (List.getElem_mem hlt)
    exact ⟨i + 1, v, hnext i hlt var, hv, ih (i + 1) hlt (some v) (by omega)⟩

/-- The entries behind the key, unless the table lacks it. -/
def behind [DecidableEq V] (entries : List (V × V)) : Option V → Option (List (V × V))
  | none => some entries
  | some k => (entries.dropWhile fun e => e.1 ≠ k).tail?

/-- `next` over a table that has its entries in this order. -/
def next [DecidableEq V] (entries : List (V × V)) : Iterator Unit V where
  f _ key := (behind entries key).map fun rest =>
    ((), rest.head?.elim [none] fun e => [some e.1, some e.2])
  s := ()
  var := none

theorem next_enumerates [DecidableEq V] {entries : List (V × V)}
    (hkeys : (entries.map Prod.fst).Nodup) :
    (next entries).Enumerates (entries.map fun e => [some e.1, some e.2]) := by
  have hcalls : ∀ (rest before : List (V × V)) (key : Option V), entries = before ++ rest →
      behind entries key = some rest →
      Calls (next entries).f () key (rest.map fun e => [some e.1, some e.2]) := by
    intro rest
    induction rest with
    | nil => exact fun before key _ hbehind => ⟨(), [none], by simp [next, hbehind], rfl⟩
    | cons e rest ih =>
      intro before key hsplit hbehind
      refine ⟨(), e.1, by simp [next, hbehind], rfl,
        ih (before ++ [e]) (some e.1) (by simp [hsplit]) ?_⟩
      have hbefore : ∀ e' ∈ before, decide (e'.1 ≠ e.1) = true := fun e' he' => by
        rw [hsplit, List.map_append, List.map_cons, List.nodup_append] at hkeys
        exact decide_eq_true (hkeys.2.2 e'.1 (List.mem_map_of_mem he') e.1 List.mem_cons_self)
      rw [behind, hsplit, List.dropWhile_append_of_pos hbefore,
        List.dropWhile_cons_of_neg (by simp)]
      rfl
  exact hcalls entries [] none rfl rfl

/-! ## Loops over an iterator -/

/-- `while true do local ret = f(s, var); var = ret[1]; if var == nil then break; end … end` -/
def whileTrue {ρ : Type*} (f : σ → Option V → Option (σ × Tuple V)) (body : ρ → Tuple V → ρ) :
    ℕ → σ → Option V → ρ → Option ρ
  | 0, _, _, _ => none
  | fuel + 1, s, var, results =>
    (f s var).bind fun (s, ret) =>
      match first ret with
      | none => some results
      | some v => whileTrue f body fuel s (some v) (body results ret)

variable {fuel : ℕ}

theorem whileTrue_eq {ρ : Type*} (body : ρ → Tuple V → ρ) {s : σ} (h : Calls f s var l)
    (hfuel : l.length < fuel) (results : ρ) :
    whileTrue f body fuel s var results = some (l.foldl body results) := by
  induction l generalizing fuel s var results with
  | nil =>
    obtain ⟨s', ret, hcall, hnil⟩ := h
    obtain ⟨fuel, rfl⟩ := Nat.exists_eq_add_of_lt hfuel
    simp [whileTrue, hcall, hnil]
  | cons ret l ih =>
    obtain ⟨s', v, hcall, hv, hl⟩ := h
    cases fuel with
    | zero => simp at hfuel
    | succ fuel =>
      rw [whileTrue, hcall, Option.bind_some]
      dsimp only
      rw [hv]
      exact ih hl (by simpa using hfuel) _

/-! ## `reverse` -/

/-- `#` of a table of values: any border. -/
structure Border (V : Type*) where
  length : Tuple V → ℕ
  before : ∀ ret, length ret ≠ 0 → ∃ v, ret[length ret - 1]? = some (some v)
  behind : ∀ ret, ret[length ret]?.join = none

/-- The iterator over the `results`. -/
def reversed (border : Border V) (results : List (Tuple V)) : Iterator ℕ V where
  f i _ :=
    match results[i]? with
    | none => some (i, [])
    | some ret => some (i + 1, ret.take (border.length ret))
  s := 0
  var := none

def reverse (border : Border V) (fuel : ℕ) (it : Iterator σ V) : Option (Iterator ℕ V) :=
  (whileTrue it.f (fun results ret => ret :: results) fuel it.s it.var []).map (reversed border)

theorem first_take_border (border : Border V) {ret : Tuple V} {v : V} (h : first ret = some v) :
    first (ret.take (border.length ret)) = some v := by
  cases ret with
  | nil => cases h
  | cons value ret =>
    have hbehind := border.behind (value :: ret)
    cases hlength : border.length (value :: ret) with
    | zero =>
      rw [hlength] at hbehind
      exact absurd (hbehind.symm.trans h) (by simp)
    | succ n => exact h

theorem border_le (border : Border V) (ret : Tuple V) : border.length ret ≤ ret.length := by
  by_cases hzero : border.length ret = 0
  · omega
  · obtain ⟨v, hv⟩ := border.before ret hzero
    have := (List.getElem?_eq_some_iff.mp hv).1
    omega

/-- The values behind the border are lost. -/
theorem reversed_enumerates (border : Border V) (results : List (Tuple V))
    (hfirst : ∀ ret ∈ results, ∃ v, first ret = some v) :
    (reversed border results).Enumerates (results.map fun ret => ret.take (border.length ret)) := by
  have hkept : ∀ ret ∈ results.map fun ret => ret.take (border.length ret),
      ∃ v, first ret = some v := fun ret hret => by
    obtain ⟨ret', hret', rfl⟩ := List.mem_map.mp hret
    obtain ⟨v, hv⟩ := hfirst ret' hret'
    exact ⟨v, first_take_border border hv⟩
  refine calls_of_count hkept (fun i hi var => ?_) (fun var => ⟨results.length, [], ?_, rfl⟩) 0
    (Nat.zero_le _) none
  · rw [List.length_map] at hi
    simp [reversed, List.getElem?_eq_getElem hi]
  · simp [reversed]

variable {it : Iterator σ V}

theorem reverse_denotes_iff (border : Border V) (h : it.Enumerates l) (hfuel : l.length < fuel) :
    Denotes (reverse border fuel it) l.reverse ↔ ∀ ret ∈ l, border.length ret = ret.length := by
  have hresults : reverse border fuel it = some (reversed border l.reverse) := by
    rw [reverse, whileTrue_eq _ h hfuel, Option.map_some]
    simp
  have henum := reversed_enumerates border l.reverse fun ret hret =>
    Calls.first h ret (List.mem_reverse.mp hret)
  have hsame : (∀ ret ∈ l, border.length ret = ret.length) ↔
      (l.reverse.map fun ret => ret.take (border.length ret)) = l.reverse := by
    conv_rhs => rhs; rw [← List.map_id l.reverse]
    rw [List.map_inj_left]
    simp only [List.mem_reverse, id]
    refine forall₂_congr fun ret _ => ?_
    rw [List.take_eq_self_iff]
    have := border_le border ret
    omega
  rw [hsame]
  constructor
  · rintro ⟨it', hit', h'⟩
    cases hresults.symm.trans hit'
    exact Calls.unique henum h'
  · intro heq
    rw [heq] at henum
    exact ⟨_, hresults, henum⟩

/-! ## `head`, `skip` and `tail` -/

def head (n : ℕ) (it : Iterator σ V) : Iterator (σ × ℕ) V where
  f s var :=
    if n ≤ s.2 then some (s, [none])
    else (it.f s.1 var).map fun (s', ret) => ((s', s.2 + 1), ret)
  s := (it.s, 0)
  var := it.var

theorem head_enumerates (h : it.Enumerates l) (n : ℕ) : (head n it).Enumerates (l.take n) := by
  have hcalls : ∀ (l : List (Tuple V)) (s : σ) (var : Option V) (c : ℕ), Calls it.f s var l →
      Calls (head n it).f (s, c) var (l.take (n - c)) := by
    intro l
    induction l with
    | nil =>
      intro s var c ⟨s', ret, hcall, hnil⟩
      rw [List.take_nil]
      by_cases hc : n ≤ c
      · exact ⟨(s, c), [none], if_pos hc, rfl⟩
      · exact ⟨(s', c + 1), ret, by simp [head, hc, hcall], hnil⟩
    | cons ret l ih =>
      intro s var c ⟨s', v, hcall, hv, hl⟩
      by_cases hc : n ≤ c
      · rw [Nat.sub_eq_zero_of_le hc, List.take_zero]
        exact ⟨(s, c), [none], if_pos hc, rfl⟩
      · rw [show n - c = n - (c + 1) + 1 by omega, List.take_succ_cons]
        exact ⟨(s', c + 1), v, by simp [head, hc, hcall], hv, ih s' (some v) (c + 1) hl⟩
  exact hcalls l it.s it.var 0 h

/-- `for _ = 1, n do var = f(s, var); end` -/
def skip : ℕ → Iterator σ V → Option (Iterator σ V)
  | 0, it => some it
  | n + 1, it => (it.f it.s it.var).bind fun (s, ret) => skip n { it with s := s, var := first ret }

/-- Called on and on, also behind its end, the function returns `nil` after `n` calls. -/
def NilAfter (f : σ → Option V → Option (σ × Tuple V)) : ℕ → σ → Option V → Prop
  | 0, s, var => Calls f s var []
  | n + 1, s, var => ∃ s' ret, f s var = some (s', ret) ∧ NilAfter f n s' (first ret)

theorem skip_denotes (h : it.Enumerates l) {n : ℕ}
    (hn : n ≤ l.length) : Denotes (skip n it) (l.drop n) := by
  induction n generalizing it l with
  | zero => exact ⟨it, rfl, h⟩
  | succ n ih =>
    cases l with
    | nil => simp at hn
    | cons ret l =>
      obtain ⟨s', v, hcall, hv, hl⟩ := h
      rw [skip, hcall, List.drop_succ_cons]
      dsimp only [Option.bind_some]
      rw [hv]
      have hleft : n ≤ l.length := by simpa using hn
      exact @ih l { it with s := s', var := some v } hl hleft

theorem skip_denotes_nil (it : Iterator σ V) (n : ℕ) :
    Denotes (skip n it) [] ↔ NilAfter it.f n it.s it.var := by
  induction n generalizing it with
  | zero => exact ⟨fun ⟨_, hit', h⟩ => Option.some.inj hit' ▸ h, fun h => ⟨it, rfl, h⟩⟩
  | succ n ih =>
    rw [skip, NilAfter]
    cases hcall : it.f it.s it.var with
    | none => simp [Denotes]
    | some called =>
      obtain ⟨s, ret⟩ := called
      rw [Option.bind_some, ih]
      simp

theorem skip_denotes_iff (h : it.Enumerates l) (n : ℕ) :
    Denotes (skip n it) (l.drop n) ↔ n ≤ l.length ∨ NilAfter it.f n it.s it.var := by
  by_cases hn : n ≤ l.length
  · exact iff_of_true (skip_denotes h hn) (.inl hn)
  · rw [List.drop_of_length_le (by omega), skip_denotes_nil]
    simp [hn]

/-- `results[(count%n)+1] = ret; count = count + 1;` -/
def store (n : ℕ) (buffer : (ℕ → Tuple V) × ℕ) (ret : Tuple V) : (ℕ → Tuple V) × ℕ :=
  (Function.update buffer.1 (buffer.2 % n) ret, buffer.2 + 1)

/-- The iterator over the last of `count` results. -/
def lastOf (n : ℕ) (buffer : (ℕ → Tuple V) × ℕ) : Iterator ℕ V where
  f pos _ :=
    let n := min n buffer.2
    if n < pos + 1 then some (pos + 1, [none])
    else some (pos + 1, buffer.1 ((buffer.2 - 1 + (pos + 1)) % n))
  s := 0
  var := none

def tail (n : ℕ) (fuel : ℕ) (it : Iterator σ V) : Option (Iterator ℕ V) :=
  (whileTrue it.f (store n) fuel it.s it.var (fun _ => [], 0)).map (lastOf n)

theorem store_spec (n : ℕ) (l : List (Tuple V)) :
    (l.foldl (store n) (fun _ => [], 0)).2 = l.length ∧
      ∀ j (hj : j < l.length), l.length ≤ j + n →
        (l.foldl (store n) (fun _ => [], 0)).1 (j % n) = l[j] := by
  induction l using List.reverseRecOn with
  | nil => exact ⟨rfl, fun j hj => absurd hj (Nat.not_lt_zero j)⟩
  | append_singleton l ret ih =>
    obtain ⟨hcount, hbuffer⟩ := ih
    rw [List.foldl_append]
    refine ⟨by simp [store, hcount], fun j hj hjn => ?_⟩
    simp only [List.foldl_cons, List.foldl_nil, store, hcount]
    by_cases heq : j = l.length
    · subst heq
      simp
    · rw [List.length_append, List.length_singleton] at hj hjn
      have hlt : j < l.length := by omega
      rw [Function.update_of_ne (Circular.mod_ne hlt (by omega)), hbuffer j hlt (by omega),
        List.getElem_append_left hlt]

theorem tail_denotes (h : it.Enumerates l) {n : ℕ} (hn : 0 < n) (hfuel : l.length < fuel) :
    Denotes (tail n fuel it) (l.drop (l.length - n)) := by
  refine ⟨lastOf n _, by rw [tail, whileTrue_eq _ h hfuel, Option.map_some], ?_⟩
  obtain ⟨hcount, hbuffer⟩ := store_spec n l
  have hlength : (l.drop (l.length - n)).length = min n l.length := by
    rw [List.length_drop]
    omega
  refine calls_of_count (fun ret hret => Calls.first h ret (List.mem_of_mem_drop hret))
    (fun i hi var => ?_) (fun var => ?_) 0 (Nat.zero_le _) none
  · rw [hlength] at hi
    have hplace : (l.length - 1 + (i + 1)) % min n l.length = (l.length - n + i) % n := by
      rcases Nat.le_total n l.length with hle | hle
      · rw [Nat.min_eq_left hle, show l.length - 1 + (i + 1) = l.length - n + i + n by omega,
          Nat.add_mod_right]
      · rw [Nat.min_eq_right hle] at hi ⊢
        rw [show l.length - 1 + (i + 1) = i + l.length by omega, Nat.add_mod_right,
          Nat.mod_eq_of_lt hi, Nat.mod_eq_of_lt (by omega)]
        omega
    simp only [lastOf, hcount, hplace]
    rw [if_neg (by omega), hbuffer _ (by omega) (by omega), List.getElem_drop]
  · refine ⟨min n l.length + 1, [none], ?_, rfl⟩
    simp only [lastOf, hcount, hlength]
    rw [if_pos (Nat.lt_succ_self _)]

/-! ## `filter` and `unique` -/

/-- `repeat ret = pack(f(s, var)); var = ret[1]; until var == nil or accept(unpack(ret, …));` -/
def search (f : σ → Option V → Option (σ × Tuple V)) (accept : Tuple V → Bool) :
    ℕ → σ → Option V → Option (σ × Tuple V)
  | 0, _, _ => none
  | fuel + 1, s, var =>
    (f s var).bind fun (s, ret) =>
      match first ret with
      | none => some (s, ret)
      | some v => if accept ret then some (s, ret) else search f accept fuel s (some v)

theorem search_spec (accept : Tuple V → Bool) {s : σ}
    (h : Calls f s var l) (hfuel : l.length < fuel) : ((∀ ret ∈ l, accept ret = false) ∧
      ∃ s' ret, search f accept fuel s var = some (s', ret) ∧ first ret = none) ∨
    ∃ passed ret rest s' v, l = passed ++ ret :: rest ∧ (∀ ret ∈ passed, accept ret = false) ∧
      accept ret = true ∧ search f accept fuel s var = some (s', ret) ∧ first ret = some v ∧
      Calls f s' (some v) rest := by
  induction l generalizing s var fuel with
  | nil =>
    obtain ⟨s', ret, hcall, hnil⟩ := h
    obtain ⟨fuel, rfl⟩ := Nat.exists_eq_add_of_lt hfuel
    exact .inl ⟨List.forall_mem_nil _, s', ret, by simp [search, hcall, hnil], hnil⟩
  | cons ret l ih =>
    obtain ⟨s', v, hcall, hv, hl⟩ := h
    cases fuel with
    | zero => simp at hfuel
    | succ fuel =>
      rw [search, hcall, Option.bind_some]
      dsimp only
      rw [hv]
      dsimp only
      by_cases haccept : accept ret = true
      · rw [if_pos haccept]
        exact .inr ⟨[], ret, l, s', v, rfl, List.forall_mem_nil _, haccept, rfl, hv, hl⟩
      · rw [if_neg haccept]
        have hreject := Bool.eq_false_iff.mpr haccept
        rcases ih hl (by simpa using hfuel) with
          ⟨hall, hfound⟩ | ⟨passed, ret', rest, s'', v', rfl, hpassed, hfound⟩
        · exact .inl ⟨List.forall_mem_cons.mpr ⟨hreject, hall⟩, hfound⟩
        · exact .inr ⟨ret :: passed, ret', rest, s'', v', rfl,
            List.forall_mem_cons.mpr ⟨hreject, hpassed⟩, hfound⟩

/-- What `filter` is called with. -/
inductive Filter (V : Type*)
  | function (f : Tuple V → Bool)
  | value (v : Option V)

/-- `equal` is the comparison of values. -/
def Filter.selects (equal : V → V → Bool) : Filter V → Tuple V → Bool
  | function f, ret => f ret
  | value none, ret => (first ret).isSome
  | value (some v), ret => (first ret).all (!equal · v)

def filter (selects : Tuple V → Bool) (fuel : ℕ) (it : Iterator σ V) : Iterator σ V where
  f := search it.f selects fuel
  s := it.s
  var := it.var

theorem filter_enumerates (h : it.Enumerates l)
    (selects : Tuple V → Bool) (hfuel : l.length < fuel) :
    (filter selects fuel it).Enumerates (l.filter selects) := by
  have hcalls : ∀ n (l : List (Tuple V)) (s : σ) (var : Option V), l.length < n → n ≤ fuel →
      Calls it.f s var l → Calls (search it.f selects fuel) s var (l.filter selects) := by
    intro n
    induction n with
    | zero => exact fun l s var hlt => absurd hlt (Nat.not_lt_zero _)
    | succ n ih =>
      intro l s var hlt hn h
      rcases search_spec selects h (Nat.lt_of_lt_of_le hlt hn) with
        ⟨hall, hfound⟩ | ⟨passed, ret, rest, s', v, rfl, hpassed, haccept, hfound, hv, hrest⟩
      · rw [List.filter_eq_nil_iff.mpr fun ret hret => by simp [hall ret hret]]
        exact hfound
      · rw [List.filter_append, List.filter_eq_nil_iff.mpr fun ret hret => by
          simp [hpassed ret hret], List.nil_append, List.filter_cons_of_pos haccept]
        rw [List.length_append, List.length_cons] at hlt
        exact ⟨s', v, hfound, hv, ih rest s' (some v) (by omega) (by omega) hrest⟩
  exact hcalls fuel l it.s it.var hfuel (Nat.le_refl _) h

section Unique

variable [DecidableEq V]

/-- Is `set[var]` free, unless the value is `nil`? -/
def free (set : List V) (ret : Tuple V) : Bool := (first ret).all (· ∉ set)

/-- The iterator keeps the state and the control variable of the one below, and the `set`. A table
has no index NaN. -/
def unique (nan : V → Bool) (fuel : ℕ) (it : Iterator σ V) :
    Iterator (σ × Option V × List V) V where
  f := fun (s, var, set) _ =>
    (search it.f (free set) fuel s var).bind fun (s, ret) =>
      match first ret with
      | none => some ((s, none, set), [])
      | some v => if nan v then none else some ((s, some v, v :: set), ret)
  s := (it.s, it.var, [])
  var := none

/-- The first tuple, and the first occurrences among the others but those of its own value. -/
def firsts : List (Tuple V) → List (Tuple V)
  | [] => []
  | ret :: l => ret :: (firsts l).filter (first · ≠ first ret)

theorem firsts_append {set : List V} {passed : List (Tuple V)}
    (hpassed : ∀ ret ∈ passed, free set ret = false) (l : List (Tuple V)) :
    (firsts (passed ++ l)).filter (free set) = (firsts l).filter (free set) := by
  induction passed with
  | nil => rfl
  | cons ret passed ih =>
    obtain ⟨hret, hpassed⟩ := List.forall_mem_cons.mp hpassed
    rw [← ih hpassed, List.cons_append, firsts, List.filter_cons_of_neg (by simp [hret]),
      List.filter_filter]
    refine List.filter_congr fun ret' _ => ?_
    by_cases heq : first ret' = first ret
    · simp [free, heq] at hret ⊢
      exact hret
    · simp [heq]

theorem free_cons {set : List V} {v : V} {ret ret' : Tuple V} (h : first ret = some v) :
    (free set ret' && decide (first ret' ≠ first ret)) = free (v :: set) ret' := by
  rw [h]
  cases hret' : first ret' with
  | none => simp [free, hret']
  | some v' => simp [free, hret', Bool.and_comm]

theorem unique_calls_iff {it : Iterator σ V} (nan : V → Bool) {fuel : ℕ} :
    ∀ n (l : List (Tuple V)) (s : σ) (var : Option V) (set : List V) (called : Option V),
      l.length < n → n ≤ fuel → Calls it.f s var l → (∀ v ∈ set, nan v = false) →
      (Calls (unique nan fuel it).f (s, var, set) called ((firsts l).filter (free set)) ↔
        ∀ ret ∈ l, (first ret).any nan = false) := by
  intro n
  induction n with
  | zero => exact fun l s var set called hlt => absurd hlt (Nat.not_lt_zero _)
  | succ n ih =>
    intro l s var set called hlt hn h hset
    have hquiet : ∀ ret : Tuple V, free set ret = false → (first ret).any nan = false := by
      intro ret hret
      cases hfirst : first ret with
      | none => rfl
      | some v => exact hset v (by simpa [free, hfirst] using hret)
    rcases search_spec (free set) h (Nat.lt_of_lt_of_le hlt hn) with
      ⟨hall, s', ret, hfound, hnil⟩ |
      ⟨passed, ret, rest, s', v, rfl, hpassed, haccept, hfound, hv, hrest⟩
    · have hnone := firsts_append hall []
      rw [List.append_nil] at hnone
      rw [hnone]
      refine iff_of_true ⟨(s', none, set), [], ?_, rfl⟩ fun ret hret => hquiet ret (hall ret hret)
      simp [unique, hfound, hnil]
    · rw [firsts_append hpassed, firsts, List.filter_cons_of_pos haccept, List.filter_filter,
        List.filter_congr fun ret' _ => free_cons hv]
      have hmem : (∀ ret' ∈ passed ++ ret :: rest, (first ret').any nan = false) ↔
          nan v = false ∧ ∀ ret' ∈ rest, (first ret').any nan = false := by
        rw [List.forall_mem_append, List.forall_mem_cons, hv, Option.any_some]
        exact and_iff_right fun ret' hret' => hquiet ret' (hpassed ret' hret')
      rw [hmem]
      rw [List.length_append, List.length_cons] at hlt
      cases hnan : nan v with
      | true =>
        refine iff_of_false (fun ⟨s'', v', hcall, _⟩ => ?_) (by simp)
        simp [unique, hfound, hv, hnan] at hcall
      | false =>
        have hrec := ih rest s' (some v) (v :: set) (some v) (by omega) (by omega) hrest
          (List.forall_mem_cons.mpr ⟨hnan, hset⟩)
        rw [← hrec]
        have hcall : (unique nan fuel it).f (s, var, set) called =
            some ((s', some v, v :: set), ret) := by
          simp [unique, hfound, hv, hnan]
        constructor
        · rintro ⟨s'', v', hcall', hv', hl⟩
          cases hcall.symm.trans hcall'
          cases hv.symm.trans hv'
          exact ⟨rfl, hl⟩
        · exact fun hl => ⟨_, v, hcall, hv, hl.2⟩

theorem unique_enumerates_iff {it : Iterator σ V} {l : List (Tuple V)} (h : it.Enumerates l)
    (nan : V → Bool) {fuel : ℕ} (hfuel : l.length < fuel) :
    (unique nan fuel it).Enumerates (firsts l) ↔ ∀ ret ∈ l, (first ret).any nan = false := by
  have hiff := unique_calls_iff nan fuel l it.s it.var [] none hfuel (Nat.le_refl _) h
    (List.forall_mem_nil _)
  rwa [List.filter_eq_self.mpr fun ret _ => by simp [free]] at hiff

end Unique

/-! ## `join` -/

/-- `_join_iter` with the iterators from `current_idx` on. -/
def joinIter : List (Iterator σ V) → Option V → Option (List (Iterator σ V) × Tuple V)
  | [], _ => none
  | it :: iterators, var =>
    (it.f it.s (var.or it.var)).bind fun (s, ret) =>
      if (first ret).isSome then some ({ it with s := s } :: iterators, ret)
      else if iterators.isEmpty then some ([{ it with s := s }], [])
      else joinIter iterators none

inductive Method (σ V : Type*)
  | append (it : Iterator σ V)
  | prepend (it : Iterator σ V)

def Method.iterator : Method σ V → Iterator σ V
  | append it | prepend it => it

/-- The methods of a joined iterator. `table.insert(self, { f, s, var }, 1)` is an error, as the
second argument is no number. -/
def Method.call (self : List (Iterator σ V)) : Method σ V → Option (List (Iterator σ V))
  | append it => some (self ++ [it])
  | prepend _ => none

/-- Without any call of a method there is no `j_s`, which `_join_iter` fails to index. -/
def join (it : Iterator σ V) (methods : List (Method σ V)) :
    Option (Iterator (Option (List (Iterator σ V))) V) :=
  (methods.foldlM Method.call [it]).map fun self =>
    { f := fun s var => s.bind fun s => (joinIter s var).map fun (s, ret) => (some s, ret)
      s := if methods.isEmpty then none else some self
      var := none }

/-- The lists in the order of the calls. -/
def stated (lists : Iterator σ V → List (Tuple V)) (l : List (Tuple V))
    (methods : List (Method σ V)) : List (Tuple V) :=
  methods.foldl (fun l m =>
    match m with
    | .append it => l ++ lists it
    | .prepend it => lists it ++ l) l

theorem joinIter_calls {lists : Iterator σ V → List (Tuple V)} {iterators : List (Iterator σ V)} :
    ∀ {it : Iterator σ V} {var : Option V} {l : List (Tuple V)},
      Calls it.f it.s (var.or it.var) l → (∀ it ∈ iterators, it.Enumerates (lists it)) →
      Calls joinIter (it :: iterators) var (l ++ iterators.flatMap lists) := by
  induction iterators with
  | nil =>
    intro it var l h _
    rw [List.flatMap_nil, List.append_nil]
    induction l generalizing it var with
    | nil =>
      obtain ⟨s', ret, hcall, hnil⟩ := h
      exact ⟨[{ it with s := s' }], [], by simp [joinIter, hcall, hnil], rfl⟩
    | cons ret l ih =>
      obtain ⟨s', v, hcall, hv, hl⟩ := h
      exact ⟨[{ it with s := s' }], v, by simp [joinIter, hcall, hv], hv, ih hl⟩
  | cons next iterators ihits =>
    intro it var l h hits
    obtain ⟨hnext, hrest⟩ := List.forall_mem_cons.mp hits
    induction l generalizing it var with
    | nil =>
      obtain ⟨s', ret, hcall, hnil⟩ := h
      have hgoes : joinIter (it :: next :: iterators) var =
          joinIter (next :: iterators) none := by
        rw [joinIter]
        simp [hcall, hnil]
      have hcalls := @ihits next none _ hnext hrest
      rw [List.nil_append, List.flatMap_cons]
      cases hlist : lists next ++ iterators.flatMap lists with
      | nil =>
        rw [hlist] at hcalls
        rwa [Calls, hgoes]
      | cons ret' l' =>
        rw [hlist] at hcalls
        rwa [Calls, hgoes]
    | cons ret l ih =>
      obtain ⟨s', v, hcall, hv, hl⟩ := h
      exact ⟨{ it with s := s' } :: next :: iterators, v, by simp [joinIter, hcall, hv], hv,
        ih hl⟩

/-- An object that fails on `nil` works on a state that is there as the function does. -/
theorem calls_some {s : σ} (h : Calls f s var l) :
    Calls (fun s var => s.bind fun s => (f s var).map fun (s, ret) => (some s, ret))
      (some s) var l := by
  induction l generalizing s var with
  | nil =>
    obtain ⟨s', ret, hcall, hnil⟩ := h
    exact ⟨some s', ret, by simp [hcall], hnil⟩
  | cons ret l ih =>
    obtain ⟨s', v, hcall, hv, hl⟩ := h
    exact ⟨some s', v, by simp [hcall], hv, ih hl⟩

/-- Only `append` has been called. -/
def Appended (methods : List (Method σ V)) : Prop := ∃ its, methods = List.map .append its

variable {methods : List (Method σ V)}

theorem appended_cons {m : Method σ V} :
    Appended (m :: methods) ↔ m = .append m.iterator ∧ Appended methods := by
  constructor
  · rintro ⟨_ | ⟨it, its⟩, h⟩
    · cases h
    · cases h
      exact ⟨rfl, its, rfl⟩
  · rintro ⟨hm, its, rfl⟩
    exact ⟨m.iterator :: its, by rw [List.map_cons, ← hm]⟩

theorem methods_call (self : List (Iterator σ V)) {self' : List (Iterator σ V)} :
    methods.foldlM Method.call self = some self' ↔
      Appended methods ∧ self' = self ++ methods.map Method.iterator := by
  induction methods generalizing self with
  | nil =>
    rw [List.map_nil, List.append_nil]
    exact ⟨fun h => ⟨⟨[], rfl⟩, (Option.some.inj h).symm⟩, fun h => congrArg some h.2.symm⟩
  | cons m methods ih =>
    rw [List.foldlM_cons, appended_cons]
    cases m with
    | append it =>
      rw [Method.call, Option.bind_eq_bind, Option.bind_some, ih]
      simp [Method.iterator]
    | prepend it => simp [Method.call, Method.iterator]

theorem stated_appended (lists : Iterator σ V → List (Tuple V))
    (h : Appended methods) (l : List (Tuple V)) :
    stated lists l methods = l ++ (methods.map Method.iterator).flatMap lists := by
  induction methods generalizing l with
  | nil => simp [stated]
  | cons m methods ih =>
    obtain ⟨hm, h⟩ := appended_cons.mp h
    rw [hm]
    change stated lists (l ++ lists m.iterator) methods = _
    rw [ih h, List.append_assoc]
    rfl

theorem join_denotes_iff {lists : Iterator σ V → List (Tuple V)}
    (h : it.Enumerates l) (hmethods : ∀ m ∈ methods, m.iterator.Enumerates (lists m.iterator)) :
    Denotes (join it methods) (stated lists l methods) ↔ methods ≠ [] ∧ Appended methods := by
  constructor
  · rintro ⟨it', hit', h'⟩
    obtain ⟨self, hself, rfl⟩ := Option.map_eq_some_iff.mp hit'
    refine ⟨fun hnone => ?_, ((methods_call _).mp hself).1⟩
    rw [hnone] at h'
    cases l with
    | nil =>
      obtain ⟨s, ret, hcall, -⟩ := h'
      cases hcall
    | cons ret l =>
      obtain ⟨s, v, hcall, -⟩ := h'
      cases hcall
  · rintro ⟨hne, happended⟩
    have hself := (methods_call [it]).mpr ⟨happended, rfl⟩
    refine ⟨_, by rw [join, hself]; rfl, ?_⟩
    rw [stated_appended lists happended]
    have hits : ∀ it ∈ methods.map Method.iterator, it.Enumerates (lists it) := by
      simpa using hmethods
    have hcalls := calls_some (@joinIter_calls _ _ _ _ it none l h hits)
    simpa [Iterator.Enumerates, hne] using hcalls

/-! ## All of them -/

/-- What the combinators return, one by one. `reverse` takes tuples up to a border, `skip` calls an
iterator again that is at its end, NaN is no index, and `prepend` is an error as is an iterator that
nothing has been joined to. -/
theorem combinators_right_iff [DecidableEq V] (border : Border V) (equal : V → V → Bool)
    (nan : V → Bool) (it : Iterator σ V) (l : List (Tuple V)) (h : it.Enumerates l) (n : ℕ)
    (hn : 0 < n) (fuel : ℕ) (hfuel : l.length < fuel) (selector : Filter V)
    (lists : Iterator σ V → List (Tuple V)) (methods : List (Method σ V))
    (hmethods : ∀ m ∈ methods, m.iterator.Enumerates (lists m.iterator)) :
    (head n it).Enumerates (l.take n) ∧
      Denotes (tail n fuel it) (l.drop (l.length - n)) ∧
      (filter (selector.selects equal) fuel it).Enumerates (l.filter (selector.selects equal)) ∧
      (Denotes (reverse border fuel it) l.reverse ↔ ∀ ret ∈ l, border.length ret = ret.length) ∧
      (Denotes (skip n it) (l.drop n) ↔ n ≤ l.length ∨ NilAfter it.f n it.s it.var) ∧
      ((unique nan fuel it).Enumerates (firsts l) ↔ ∀ ret ∈ l, (first ret).any nan = false) ∧
      (Denotes (join it methods) (stated lists l methods) ↔
        methods ≠ [] ∧ Appended methods) :=
  ⟨head_enumerates h n, tail_denotes h hn hfuel, filter_enumerates h _ hfuel,
    reverse_denotes_iff border h hfuel, skip_denotes_iff h n, unique_enumerates_iff h nan hfuel,
    join_denotes_iff h hmethods⟩

/-- The values in front of the first `nil`. -/
def firstBorder : Tuple V → ℕ
  | some _ :: ret => firstBorder ret + 1
  | _ => 0

def Border.first : Border V where
  length := firstBorder
  before ret h := by
    induction ret using firstBorder.induct with
    | case1 v ret ih =>
      by_cases hzero : firstBorder ret = 0
      · exact ⟨v, by simp [firstBorder, hzero]⟩
      · obtain ⟨v', hv'⟩ := ih hzero
        refine ⟨v', ?_⟩
        rw [← hv', firstBorder, Nat.add_sub_cancel,
          show firstBorder ret = firstBorder ret - 1 + 1 by omega, List.getElem?_cons_succ]
        simp
    | case2 ret hnone =>
      rw [firstBorder.eq_2 ret hnone] at h
      exact absurd rfl h
  behind ret := by
    induction ret using firstBorder.induct with
    | case1 v ret ih => simpa [firstBorder] using ih
    | case2 ret hnone =>
      rw [firstBorder.eq_2 ret hnone]
      cases ret with
      | nil => rfl
      | cons v ret =>
        cases v with
        | none => rfl
        | some v => exact absurd rfl (hnone v ret)

theorem pairs_right :
    (head 1 (next [(1, 2), (3, 4)])).Enumerates [[some 1, some 2]] ∧
      Denotes (skip 1 (next [(1, 2), (3, 4)])) [[some 3, some 4]] ∧
      Denotes (join (next [(1, 2), (3, 4)]) [.append (next [(5, 6)])])
        [[some 1, some 2], [some 3, some 4], [some 5, some 6]] := by
  have hpair : (next [(5, 6)]).Enumerates [[some 5, some 6]] := next_enumerates (by decide)
  have h := combinators_right_iff Border.first (· == ·) (fun _ => false) (next [(1, 2), (3, 4)])
    [[some 1, some 2], [some 3, some 4]] (next_enumerates (by decide)) 1 (by decide) 3 (by decide)
    (.value none) (fun _ => [[some 5, some 6]]) [.append (next [(5, 6)])]
    (List.forall_mem_singleton.mpr hpair)
  exact ⟨h.1, h.2.2.2.2.1.mpr (.inl (by decide)),
    h.2.2.2.2.2.2.mpr ⟨List.cons_ne_nil _ _, [next [(5, 6)]], rfl⟩⟩

/-- An error takes the place of the pair that should come first. -/
theorem prepend_not_right :
    ¬ Denotes (join (next [(1, 2)]) [.prepend (next [(3, 4)])])
      [[some 3, some 4], [some 1, some 2]] := by
  rintro ⟨it, hit, -⟩
  cases hit

end Prosody.Iterators
