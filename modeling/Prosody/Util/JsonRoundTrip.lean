import Prosody.Util.JsonTables

/-! # Values come back

What is written of a value is read as a value with the same entries. -/

namespace Prosody.Json

/-! ## Values that are the same -/

def Value.isTable : Value → Bool
  | .array _ => true
  | .table _ => true
  | _ => false

def Value.entries : Value → Entries
  | .array vs => numbered vs
  | .table es => es
  | _ => []

/-- The values are equal, whatever metatables there are. -/
inductive Same : Value → Value → Prop
  | null : Same .null .null
  | boolean (b : Bool) : Same (.boolean b) (.boolean b)
  | number (q : ℚ) : Same (.number q) (.number q)
  | string (s : Text) : Same (.string s) (.string s)
  | table {a b : Value} (ha : a.isTable = true) (hb : b.isTable = true)
      (keys : ∀ k, (get a.entries k).isSome = (get b.entries k).isSome)
      (values : ∀ k x y, get a.entries k = some x → get b.entries k = some y → Same x y) :
      Same a b

/-- An integer that is written without an exponent. -/
def Small (q : ℚ) : Prop := ∃ n : ℤ, q = n ∧ n.natAbs < 10 ^ 14

def FineKey : Value → Prop
  | .string _ => True
  | .boolean _ => True
  | .number q => Small q
  | _ => False

namespace Value

mutual

/-- The values of which texts are made. -/
def Fine : Value → Prop
  | .number q => Small q
  | .array vs => AllFine vs
  | .table es => EntriesFine es ∧ (es.map Prod.fst).Nodup
  | _ => True
termination_by structural v => v

def AllFine : List Value → Prop
  | [] => True
  | v :: vs => Fine v ∧ AllFine vs
termination_by structural vs => vs

def EntriesFine : List (Value × Value) → Prop
  | [] => True
  | (k, v) :: es => (FineKey k ∧ Fine v) ∧ EntriesFine es
termination_by structural es => es

end

mutual

def Filled : Value → Prop
  | .array vs => vs ≠ [] ∧ AllFilled vs
  | .table es => EntriesFilled es
  | _ => True
termination_by structural v => v

def AllFilled : List Value → Prop
  | [] => True
  | v :: vs => Filled v ∧ AllFilled vs
termination_by structural vs => vs

def EntriesFilled : List (Value × Value) → Prop
  | [] => True
  | (_, v) :: es => Filled v ∧ EntriesFilled es
termination_by structural es => es

end

mutual

/-- The value with `null` in the place of arrays that are taken for it. -/
def nulled (lua : Lua) : Value → Value
  | .array vs =>
    if lua.modern = true ∧ vs.isEmpty = true then .null else .array (allNulled lua vs)
  | .table es => .table (entriesNulled lua es)
  | v => v
termination_by structural v => v

def allNulled (lua : Lua) : List Value → List Value
  | [] => []
  | v :: vs => nulled lua v :: allNulled lua vs
termination_by structural vs => vs

def entriesNulled (lua : Lua) : List (Value × Value) → List (Value × Value)
  | [] => []
  | (k, v) :: es => (k, nulled lua v) :: entriesNulled lua es
termination_by structural es => es

end

/-! ### Parts -/

theorem allFine_iff (vs : List Value) : AllFine vs ↔ ∀ v ∈ vs, v.Fine := by
  induction vs with
  | nil => simp [AllFine]
  | cons v vs ih => rw [AllFine, ih, List.forall_mem_cons]

theorem entriesFine_iff (es : List (Value × Value)) :
    EntriesFine es ↔ ∀ e ∈ es, FineKey e.1 ∧ e.2.Fine := by
  induction es with
  | nil => simp [EntriesFine]
  | cons e es ih => rw [EntriesFine, ih, List.forall_mem_cons]

theorem allFilled_iff (vs : List Value) : AllFilled vs ↔ ∀ v ∈ vs, v.Filled := by
  induction vs with
  | nil => simp [AllFilled]
  | cons v vs ih => rw [AllFilled, ih, List.forall_mem_cons]

theorem entriesFilled_iff (es : List (Value × Value)) :
    EntriesFilled es ↔ ∀ e ∈ es, e.2.Filled := by
  induction es with
  | nil => simp [EntriesFilled]
  | cons e es ih => rw [EntriesFilled, ih, List.forall_mem_cons]

theorem allNulled_eq (lua : Lua) (vs : List Value) : allNulled lua vs = vs.map (nulled lua) := by
  induction vs with
  | nil => rfl
  | cons v vs ih => rw [allNulled, ih, List.map_cons]

theorem entriesNulled_eq (lua : Lua) (es : List (Value × Value)) :
    entriesNulled lua es = es.map fun e => (e.1, nulled lua e.2) := by
  induction es with
  | nil => rfl
  | cons e es ih => rw [entriesNulled, ih, List.map_cons]

/-- What holds of a value if it holds of its parts holds of every value. -/
theorem parts {motive : Value → Prop} (null : motive null) (boolean : ∀ b, motive (boolean b))
    (number : ∀ q, motive (number q)) (string : ∀ s, motive (string s))
    (array : ∀ vs, (∀ v ∈ vs, motive v) → motive (array vs))
    (table : ∀ es, (∀ e ∈ es, motive e.2) → motive (table es)) (v : Value) : motive v :=
  @Value.rec motive (fun vs => ∀ v ∈ vs, motive v) (fun es => ∀ e ∈ es, motive e.2)
    (fun e => motive e.2) null boolean number string array table
    (List.forall_mem_nil _) (fun _ _ hv hvs => List.forall_mem_cons.mpr ⟨hv, hvs⟩)
    (List.forall_mem_nil _) (fun _ _ he hes => List.forall_mem_cons.mpr ⟨he, hes⟩)
    (fun _ _ _ hv => hv) v

end Value

theorem saveItems_eq (lua : Lua) (ordered : Bool) (vs : List Value) :
    saveItems lua ordered vs = vs.map (simplesave lua ordered) := by
  induction vs with
  | nil => rfl
  | cons v vs ih => rw [saveItems, ih, List.map_cons]

def saved (lua : Lua) (ordered : Bool) (e : Value × Value) : Saved :=
  ⟨e.1, simplesave lua ordered e.1, simplesave lua ordered e.2⟩

theorem saveEntries_eq (lua : Lua) (ordered : Bool) (es : List (Value × Value)) :
    saveEntries lua ordered es = es.map (saved lua ordered) := by
  induction es with
  | nil => rfl
  | cons e es ih => rw [saveEntries, ih, List.map_cons]; rfl

/-! ## What is read -/

section Reading

variable {lua : Lua} {ordered : Bool}

theorem readsAs_tostring {q : ℚ} (h : Small q) : ReadsAs lua (tostring lua q) (.number q) := by
  obtain ⟨n, rfl, hn⟩ := h
  have htext : tostring lua (n : ℚ) = Decimal.ofInt n := by
    rw [tostring, Rat.den_intCast, if_pos rfl, Rat.num_intCast, Decimal.general, Decimal.ofInt,
      if_pos hn]
  have hread := Decimal.read_ofInt n
  obtain ⟨d, ds, hdigits, hd⟩ := Decimal.exists_toDigits n.natAbs
  have hchars : ∀ c ∈ Nat.toDigits 10 n.natAbs, numberChar c = true := by
    intro c hc
    simp [numberChar, Nat.isDigit_of_mem_toDigits (by decide) (by decide) hc]
  rw [htext]
  unfold Decimal.ofInt at *
  by_cases hneg : n < 0
  · rw [if_pos hneg] at hread ⊢
    exact readsAs_number lua hread (List.forall_mem_cons.mpr ⟨by decide, hchars⟩) rfl (.inr rfl)
  · rw [if_neg hneg] at hread ⊢
    exact readsAs_number lua hread hchars hdigits (.inl hd)

theorem readsAs_key {k : Value} (h : FineKey k) : ReadsAs lua (simplesave lua ordered k) k := by
  cases k with
  | null => cases h
  | boolean b =>
    cases b with
    | true => exact readsAs_true lua
    | false => exact readsAs_false lua
  | number q => exact readsAs_tostring h
  | string s => exact readsAs_stringsave lua s
  | array vs => cases h
  | table es => cases h

theorem get_map {ι : Type} (l : List ι) (key a : ι → Value) (k : Value) :
    get (l.map fun x => (key x, a x)) k = (l.find? fun x => sameKey k (key x)).map a := by
  unfold get
  rw [List.find?_map, Option.map_map]
  rfl

/-- Tables whose values are the same at each key. -/
theorem Same.of_map {ι : Type} (l : List ι) (key a b : ι → Value) {u w : Value}
    (hu : u.isTable = true) (hw : w.isTable = true)
    (hukeys : ∀ k, get u.entries k = get (l.map fun x => (key x, a x)) k)
    (hwkeys : ∀ k, get w.entries k = get (l.map fun x => (key x, b x)) k)
    (h : ∀ x ∈ l, Same (a x) (b x)) : Same u w := by
  refine Same.table hu hw (fun k => ?_) fun k x y hx hy => ?_
  · rw [hukeys, hwkeys, get_map, get_map, Option.isSome_map, Option.isSome_map]
  · rw [hukeys, get_map, Option.map_eq_some_iff] at hx
    obtain ⟨i, hi, rfl⟩ := hx
    rw [hwkeys, get_map, hi] at hy
    cases hy
    exact h i (List.mem_of_find?_eq_some hi)

theorem numbered_map (vs : List Value) (f : Value → Value) :
    numbered (vs.map f) = (vs.zipIdx 1).map fun p => (.number (p.2 : ℕ), f p.1) := by
  unfold numbered
  rw [List.zipIdx_map, List.map_map]
  rfl

theorem sameKey_of_fineKey {k : Value} (h : FineKey k) : sameKey k k = true := by
  cases k with
  | null => rfl
  | boolean b => exact decide_eq_true rfl
  | number q => exact decide_eq_true rfl
  | string s => exact decide_eq_true rfl
  | array vs => cases h
  | table es => cases h

theorem functional_of_nodup {es : Entries} (h : (es.map Prod.fst).Nodup) : Functional es :=
  fun _ he _ he' heq => List.inj_on_of_nodup_map h he he' heq

def Comes (lua : Lua) (ordered : Bool) (v w : Value) : Prop :=
  ReadsAs lua (simplesave lua ordered v) w ∧ Same (v.nulled lua) w

theorem comes_array {vs : List Value} (h : ∀ v ∈ vs, ∃ w, Comes lua ordered v w) :
    ∃ w, Comes lua ordered (.array vs) w := by
  by_cases hnull : lua.modern = true ∧ vs.isEmpty = true
  · refine ⟨.null, ?_, ?_⟩
    · rw [simplesave, if_pos hnull]
      exact readsAs_null lua
    · rw [Value.nulled, if_pos hnull]
      exact .null
  · have hne : Nonempty Value := ⟨.null⟩
    choose! f hf using h
    refine ⟨.array (vs.map f), ?_, ?_⟩
    · rw [simplesave, if_neg hnull, saveItems_eq]
      refine readsAs_array ?_
      rw [List.forall₂_map_left_iff, List.forall₂_map_right_iff, List.forall₂_same]
      exact fun v hv => (hf v hv).1
    · rw [Value.nulled, if_neg hnull, Value.allNulled_eq]
      refine Same.of_map (vs.zipIdx 1) (fun p => .number (p.2 : ℕ)) (fun p => p.1.nulled lua)
        (fun p => f p.1) rfl rfl ?_ ?_ ?_
      · exact fun k => by rw [Value.entries, numbered_map]
      · exact fun k => by rw [Value.entries, numbered_map]
      · exact fun p hp => (hf p.1 (List.fst_mem_of_mem_zipIdx hp)).2

theorem comes_table {es : Entries} (hes : ∀ e ∈ es, FineKey e.1) (hkeys : (es.map Prod.fst).Nodup)
    (h : ∀ e ∈ es, ∃ w, Comes lua ordered e.2 w) : ∃ w, Comes lua ordered (.table es) w := by
  have hne : Nonempty Value := ⟨.null⟩
  have hvalue : ∀ v, (∃ e ∈ es, e.2 = v) → ∃ w, Comes lua ordered v w := by
    rintro v ⟨e, he, rfl⟩
    exact h e he
  choose! f hf using hvalue
  -- what is read of an entry's text depends on its key
  obtain ⟨g, hg⟩ : ∃ g : Saved → Value, ∀ e ∈ es, g (saved lua ordered e) = f e.2 := by
    refine ⟨fun s => ((get es s.key).map f).getD .null, fun e he => ?_⟩
    have hget : get es (saved lua ordered e).key = some e.2 :=
      (get_eq_some_iff (functional_of_nodup hkeys) (sameKey_of_fineKey (hes e he))).mpr he
    simp only [hget, Option.map_some, Option.getD_some]
  have hsaved : ((es.map (saved lua ordered)).map Saved.key).Nodup := by
    rw [List.map_map]
    exact hkeys
  have hread : ∀ s ∈ es.map (saved lua ordered), Readable lua g s := by
    intro s hs
    obtain ⟨e, he, rfl⟩ := List.mem_map.mp hs
    have htext : ReadsAs lua (saved lua ordered e).text (g (saved lua ordered e)) := by
      rw [hg e he]
      exact (hf e.2 ⟨e, he, rfl⟩).1
    refine ⟨readsAs_key (hes e he), htext, fun x hx => ?_⟩
    have hkey : (saved lua ordered e).keyText = stringsave x := by
      change simplesave lua ordered e.1 = _
      rw [show e.1 = .string x from hx, simplesave]
    rw [hkey]
    exact readsMember_stringsave htext x
  have hentries : loaded g (es.map (saved lua ordered)) = es.map fun e => (e.1, f e.2) := by
    rw [loaded, List.map_map]
    exact List.map_congr_left fun e he => Prod.ext rfl (hg e he)
  have hfunctional := functional_loaded (g := g) hsaved
  have hsame : ∀ w : Value, w.isTable = true →
      (∀ e, e ∈ w.entries ↔ e ∈ loaded g (es.map (saved lua ordered))) →
      Same ((Value.table es).nulled lua) w := by
    intro w hw hmem
    rw [Value.nulled, Value.entriesNulled_eq]
    refine Same.of_map es Prod.fst (fun e => e.2.nulled lua) (fun e => f e.2) rfl hw
      (fun k => rfl) (fun k => ?_) fun e he => ?_
    · rw [← hentries]
      exact (get_congr (fun e => (hmem e).symm) hfunctional k).symm
    · exact (hf e.2 ⟨e, he, rfl⟩).2
  rcases readsEntries_tablesave ordered hsaved hread with ⟨vs, hreads, hmem⟩ | ⟨o, hreads, hmem⟩
  · refine ⟨.array vs, ?_, hsame _ rfl hmem⟩
    rw [simplesave, saveEntries_eq]
    exact hreads
  · refine ⟨.table o, ?_, hsame _ rfl hmem⟩
    rw [simplesave, saveEntries_eq]
    exact hreads

theorem exists_comes (lua : Lua) (ordered : Bool) {v : Value} (h : v.Fine) :
    ∃ w, Comes lua ordered v w := by
  induction v using Value.parts with
  | null => exact ⟨.null, readsAs_null lua, .null⟩
  | boolean b =>
    cases b with
    | true => exact ⟨_, readsAs_true lua, .boolean true⟩
    | false => exact ⟨_, readsAs_false lua, .boolean false⟩
  | number q => exact ⟨_, readsAs_tostring h, .number q⟩
  | string s => exact ⟨_, readsAs_stringsave lua s, .string s⟩
  | array vs ih => exact comes_array fun v hv => ih v hv ((Value.allFine_iff vs).mp h v hv)
  | table es ih =>
    have hfine := (Value.entriesFine_iff es).mp h.1
    exact comes_table (fun e he => (hfine e he).1) h.2 fun e he => ih e he (hfine e he).2

end Reading

/-! ## Round trips -/

theorem nulled_of_filled {lua : Lua} {v : Value} (h : lua.modern = false ∨ v.Filled) :
    v.nulled lua = v := by
  induction v using Value.parts with
  | null => rfl
  | boolean b => rfl
  | number q => rfl
  | string s => rfl
  | array vs ih =>
    have hnot : ¬ (lua.modern = true ∧ vs.isEmpty = true) := by
      rintro ⟨hmodern, hempty⟩
      rcases h with h | h
      · rw [hmodern] at h
        cases h
      · exact h.1 (List.isEmpty_iff.mp hempty)
    rw [Value.nulled, if_neg hnot, Value.allNulled_eq]
    congr 1
    conv_rhs => rw [← List.map_id vs]
    refine List.map_congr_left fun v hv => ih v hv ?_
    exact h.imp_right fun h => (Value.allFilled_iff vs).mp h.2 v hv
  | table es ih =>
    rw [Value.nulled, Value.entriesNulled_eq]
    congr 1
    conv_rhs => rw [← List.map_id es]
    refine List.map_congr_left fun e he => Prod.ext rfl (ih e he ?_)
    exact h.imp_right fun h => (Value.entriesFilled_iff es).mp h e he

/-- No array is taken for `null` in a value that comes back. -/
theorem filled_of_same {lua : Lua} (hmodern : lua.modern = true) {v w : Value} (hv : v.Fine)
    (h : Same v w) (hnulled : Same (v.nulled lua) w) : v.Filled := by
  induction v using Value.parts generalizing w with
  | null => trivial
  | boolean b => trivial
  | number q => trivial
  | string s => trivial
  | array vs ih =>
    cases h with
    | table ha hb keys values =>
    by_cases hempty : vs.isEmpty = true
    · rw [Value.nulled, if_pos ⟨hmodern, hempty⟩] at hnulled
      cases hnulled with
      | null => cases hb
      | table ha' => cases ha'
    · rw [Value.nulled, if_neg fun h => hempty h.2, Value.allNulled_eq] at hnulled
      cases hnulled with
      | table ha' hb' keys' values' =>
      refine ⟨fun hnil => hempty (List.isEmpty_iff.mpr hnil), ?_⟩
      rw [Value.allFilled_iff]
      intro v hmem
      obtain ⟨j, hj, rfl⟩ := List.mem_iff_getElem.mp hmem
      have hget : get (numbered vs) (.number ((j + 1 : ℕ) : ℚ)) = some vs[j] := by
        rw [get_numbered, List.getElem?_eq_getElem hj]
      have hget' : get (numbered (vs.map (Value.nulled lua))) (.number ((j + 1 : ℕ) : ℚ)) =
          some (vs[j].nulled lua) := by
        rw [get_numbered, List.getElem?_map, List.getElem?_eq_getElem hj]
        rfl
      have hsome := keys (.number ((j + 1 : ℕ) : ℚ))
      rw [show (Value.array vs).entries = numbered vs from rfl, hget] at hsome
      obtain ⟨y, hy⟩ := Option.isSome_iff_exists.mp hsome.symm
      exact ih _ hmem ((Value.allFine_iff vs).mp hv _ hmem) (values _ _ y hget hy)
        (values' _ _ y hget' hy)
  | table es ih =>
    cases h with
    | table ha hb keys values =>
    rw [Value.nulled, Value.entriesNulled_eq] at hnulled
    cases hnulled with
    | table ha' hb' keys' values' =>
    have hfine := (Value.entriesFine_iff es).mp hv.1
    change Value.EntriesFilled es
    rw [Value.entriesFilled_iff]
    intro e he
    have hself := sameKey_of_fineKey (hfine e he).1
    have hget : get es e.1 = some e.2 :=
      (get_eq_some_iff (functional_of_nodup hv.2) hself).mpr he
    have hnodup : ((es.map fun e => (e.1, e.2.nulled lua)).map Prod.fst).Nodup := by
      rw [List.map_map]
      exact hv.2
    have hget' : get (es.map fun e => (e.1, e.2.nulled lua)) e.1 = some (e.2.nulled lua) :=
      (get_eq_some_iff (functional_of_nodup hnodup) hself).mpr (List.mem_map.mpr ⟨e, he, rfl⟩)
    have hsome := keys e.1
    rw [show (Value.table es).entries = es from rfl, hget] at hsome
    obtain ⟨y, hy⟩ := Option.isSome_iff_exists.mp hsome.symm
    exact ih e he (hfine e he).2 (values _ _ y hget hy) (values' _ _ y hget' hy)

/-- The value is decoded from what has been encoded. -/
def ComesBack (lua : Lua) (text : Text) (v : Value) : Prop :=
  ∃ w, decode lua text = .value w ∧ Same v w

theorem comesBack_iff (lua : Lua) {v : Value} (h : v.Fine) (ordered : Bool) :
    ComesBack lua (simplesave lua ordered v) v ↔ lua.modern = false ∨ v.Filled := by
  obtain ⟨w, hread, hsame⟩ := exists_comes lua ordered h
  have hdecode := decode_of_readsAs hread
  constructor
  · rintro ⟨w', hdecode', hsame'⟩
    cases hdecode.symm.trans hdecode'
    cases hmodern : lua.modern with
    | false => exact .inl rfl
    | true => exact .inr (filled_of_same hmodern h hsame' hsame)
  · intro hfilled
    rw [nulled_of_filled hfilled] at hsame
    exact ⟨w, hdecode, hsame⟩

/-- Values come back from what is encoded, in order or not, unless an array is empty where the
metamethod of arrays is asked whether it is `null`. -/
theorem encode_comesBack_iff (lua : Lua) (v : Value) (h : v.Fine) :
    ComesBack lua (encode lua v) v ∧ ComesBack lua (encodeOrdered lua v) v ↔
      lua.modern = false ∨ v.Filled := by
  have hplain := comesBack_iff lua h false
  have hordered := comesBack_iff lua h true
  constructor
  · exact fun hback => hplain.mp hback.1
  · exact fun hfilled => ⟨hplain.mpr hfilled, hordered.mpr hfilled⟩

/-- A table with an item, a member, a name with a meaning of its own, and other keys. -/
def mixed : Value :=
  .table [(.number (1 : ℤ), .string ['"', '\\']), (.string ['a'], .array [.null]),
    (.string "__hash".toList, .boolean false), (.boolean true, .number (-5 : ℤ)),
    (.number (7 : ℤ), .array [])]

theorem mixed_fine : mixed.Fine := by
  refine ⟨⟨⟨⟨1, rfl, by decide⟩, trivial⟩, ⟨trivial, trivial, trivial⟩, ⟨trivial, trivial⟩,
    ⟨trivial, -5, rfl, by decide⟩, ⟨⟨7, rfl, by decide⟩, trivial⟩, trivial⟩, ?_⟩
  simp

theorem mixed_comesBack :
    ComesBack (.keeping false) (encode (.keeping false) mixed) mixed ∧
      ComesBack (.keeping false) (encodeOrdered (.keeping false) mixed) mixed :=
  (encode_comesBack_iff (.keeping false) mixed mixed_fine).mpr (.inl rfl)

/-- An array without elements is encoded as `null`. -/
theorem empty_not_comesBack :
    ¬ ∀ (lua : Lua) (v : Value), v.Fine →
      ComesBack lua (encode lua v) v ∧ ComesBack lua (encodeOrdered lua v) v := by
  intro h
  obtain ⟨⟨w, hdecode, hsame⟩, -⟩ := h (.keeping true) (.array []) trivial
  have hnull : decode (.keeping true) (encode (.keeping true) (.array [])) = .value .null := rfl
  cases hnull.symm.trans hdecode
  cases hsame with
  | table _ hb => cases hb

end Prosody.Json
