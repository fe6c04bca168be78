import Mathlib.Data.List.TakeWhile
import Prosody.Library.Table
import Prosody.Storage.Datamanager

/-! # Encoding of forms (`util/http.lua`) -/

namespace Prosody.Urlencoded

open Datamanager (Bytes byte bytes isAlnum percent percent_plain encodeBut decode decode_cons
  decode_percent decode_encodeBut)

/-- What `urlencode` keeps. -/
def isUnreserved (c : UInt8) : Bool := isAlnum c || c ∈ bytes ".~_-"

def urlencode (s : Bytes) : Bytes := encodeBut isUnreserved s

def urldecode (s : Bytes) : Bytes := decode s

def formencodepart (s : Bytes) : Bytes :=
  s.flatMap fun c => if isAlnum c then [c] else if c ≠ byte ' ' then percent c else [byte '+']

structure Field where
  name : Bytes
  value : Bytes
  deriving DecidableEq

def encodeField (field : Field) : Bytes :=
  formencodepart field.name ++ byte '=' :: formencodepart field.value

/-- `formencode`, of the fields in the order of the array, or else in that of `pairs`. -/
def formencode (form : List Field) : Bytes :=
  List.intercalate [byte '&'] (form.map encodeField)

def isNameChar (c : UInt8) : Bool := c ≠ byte '=' ∧ c ≠ byte '&'

def isValueChar (c : UInt8) : Bool := c ≠ byte '&'

/-- How `([^=&]*)=([^&]*)` matches at the start, and what stands behind the match. A shorter name
would be followed by one of its own characters. -/
def matchField (s : Bytes) : Option (Field × Bytes) :=
  match s.dropWhile isNameChar with
  | [] => none
  | c :: t =>
    if c = byte '=' then
      some (⟨s.takeWhile isNameChar, t.takeWhile isValueChar⟩, t.dropWhile isValueChar)
    else none

theorem length_matchField {s rest : Bytes} {field : Field}
    (h : matchField s = some (field, rest)) : rest.length < s.length := by
  unfold matchField at h
  split at h
  · cases h
  · rename_i c t hdrop
    split_ifs at h
    obtain ⟨-, rfl⟩ := Prod.mk.inj (Option.some.inj h)
    have hrest := (List.dropWhile_sublist isValueChar (l := t)).length_le
    have hlength := (List.dropWhile_sublist isNameChar (l := s)).length_le
    rw [hdrop, List.length_cons] at hlength
    omega

/-- The matches that `gmatch` goes through. -/
def gmatchFields : Bytes → List Field
  | [] => []
  | c :: s =>
    match _h : matchField (c :: s) with
    | some (field, rest) => field :: gmatchFields rest
    | none => gmatchFields s
termination_by s => s.length
decreasing_by
  · exact length_matchField _h
  · exact Nat.lt_succ_self _

/-- `s:gsub("%+", "%%20")` -/
def plusToSpace (s : Bytes) : Bytes := s.flatMap fun c => if c = byte '+' then bytes "%20" else [c]

def decodeField (field : Field) : Field where
  name := urldecode (plusToSpace field.name)
  value := urldecode (plusToSpace field.value)

/-- A text, or a table with the fields at its integers and their values at their names. -/
inductive Decoded
  | text (s : Bytes)
  | form (fields : List Field) (values : Table Bytes Bytes)

def formdecode (s : Bytes) : Decoded :=
  if byte '=' ∈ s then
    let fields := (gmatchFields s).map decodeField
    .form fields (fields.foldl (fun r field => r.set field.name (some field.value)) ∅)
  else .text (urldecode s)

/-! ## One part -/

theorem urldecode_urlencode (s : Bytes) : urldecode (urlencode s) = s :=
  decode_encodeBut (by decide) s

variable {d : UInt8}

theorem alnum_ne {c : UInt8} (h : isAlnum c) (hd : isAlnum d = false) : c ≠ d := by
  rintro rfl
  rw [hd] at h
  cases h

theorem plusToSpace_append (s t : Bytes) :
    plusToSpace (s ++ t) = plusToSpace s ++ plusToSpace t := List.flatMap_append

theorem plusToSpace_of_not_mem {s : Bytes} (h : byte '+' ∉ s) : plusToSpace s = s := by
  unfold plusToSpace
  induction s with
  | nil => rfl
  | cons c s ih =>
    rw [List.flatMap_cons, if_neg fun heq : c = byte '+' => h (heq ▸ List.mem_cons_self),
      ih fun hmem => h (List.mem_cons_of_mem c hmem)]
    rfl

theorem plus_not_mem_percent (c : UInt8) : byte '+' ∉ percent c := by
  intro hmem
  rcases percent_plain hmem with h | h
  · exact absurd h (by decide)
  · exact absurd h (by decide)

theorem decode_formencodepart (s : Bytes) : urldecode (plusToSpace (formencodepart s)) = s := by
  unfold urldecode formencodepart
  induction s with
  | nil => rfl
  | cons c s ih =>
    rw [List.flatMap_cons, plusToSpace_append]
    split_ifs with halnum hspace
    · have hplus : byte '+' ∉ [c] := fun hmem =>
        alnum_ne halnum (by decide) (List.mem_singleton.mp hmem).symm
      rw [plusToSpace_of_not_mem hplus, List.singleton_append,
        decode_cons (alnum_ne halnum (by decide)), ih]
    · rw [plusToSpace_of_not_mem (plus_not_mem_percent c), decode_percent, ih]
    · have hc : c = byte ' ' := not_not.mp hspace
      have hplus : plusToSpace [byte '+'] = percent (byte ' ') := by decide
      rw [hplus, decode_percent, ih, hc]

theorem decodeField_encoded (field : Field) :
    decodeField ⟨formencodepart field.name, formencodepart field.value⟩ = field := by
  unfold decodeField
  rw [decode_formencodepart, decode_formencodepart]

theorem mem_formencodepart {s : Bytes} (h : d ∈ formencodepart s) :
    d = byte '%' ∨ d = byte '+' ∨ isAlnum d := by
  obtain ⟨c, -, hd⟩ := List.mem_flatMap.mp h
  split_ifs at hd with halnum
  · rw [List.mem_singleton.mp hd]
    exact Or.inr (Or.inr halnum)
  · exact (percent_plain hd).imp_right Or.inr
  · exact Or.inr (Or.inl (List.mem_singleton.mp hd))

theorem isNameChar_of_mem {s : Bytes} (h : d ∈ formencodepart s) : isNameChar d := by
  unfold isNameChar
  rcases mem_formencodepart h with rfl | rfl | halnum
  · decide
  · decide
  · exact decide_eq_true ⟨alnum_ne halnum (by decide), alnum_ne halnum (by decide)⟩

theorem isValueChar_of_mem {s : Bytes} (h : d ∈ formencodepart s) : isValueChar d :=
  decide_eq_true (of_decide_eq_true (isNameChar_of_mem h)).2

/-! ## The fields -/

/-- What may follow a field. -/
def Ends (t : Bytes) : Prop := t = [] ∨ ∃ u, t = byte '&' :: u

theorem takeWhile_value {s t : Bytes} (ht : Ends t) :
    (formencodepart s ++ t).takeWhile isValueChar = formencodepart s ∧
      (formencodepart s ++ t).dropWhile isValueChar = t := by
  rw [List.takeWhile_append_of_pos fun d hd => isValueChar_of_mem hd,
    List.dropWhile_append_of_pos fun d hd => isValueChar_of_mem hd]
  rcases ht with rfl | ⟨u, rfl⟩
  · exact ⟨List.append_nil _, rfl⟩
  · have hstop : ¬ isValueChar (byte '&') = true := by decide
    rw [List.takeWhile_cons_of_neg hstop, List.dropWhile_cons_of_neg hstop]
    exact ⟨List.append_nil _, rfl⟩

theorem matchField_encodeField (field : Field) {t : Bytes} (ht : Ends t) :
    matchField (encodeField field ++ t) =
      some (⟨formencodepart field.name, formencodepart field.value⟩, t) := by
  have hstop : ¬ isNameChar (byte '=') = true := by decide
  have hdrop : (encodeField field ++ t).dropWhile isNameChar =
      byte '=' :: (formencodepart field.value ++ t) := by
    rw [encodeField, List.append_assoc,
      List.dropWhile_append_of_pos fun d hd => isNameChar_of_mem hd, List.cons_append,
      List.dropWhile_cons_of_neg hstop]
  have htake : (encodeField field ++ t).takeWhile isNameChar = formencodepart field.name := by
    rw [encodeField, List.append_assoc,
      List.takeWhile_append_of_pos fun d hd => isNameChar_of_mem hd, List.cons_append,
      List.takeWhile_cons_of_neg hstop, List.append_nil]
  obtain ⟨hvalue, hrest⟩ := takeWhile_value (s := field.value) ht
  unfold matchField
  rw [hdrop, htake]
  simp only [if_true, hvalue, hrest]

theorem gmatchFields_of_some {s rest : Bytes} {field : Field}
    (h : matchField s = some (field, rest)) : gmatchFields s = field :: gmatchFields rest := by
  cases s with
  | nil => cases h
  | cons c s =>
    rw [gmatchFields]
    split
    · rename_i heq
      rw [h] at heq
      obtain ⟨rfl, rfl⟩ := Prod.mk.inj (Option.some.inj heq)
      rfl
    · rename_i heq
      rw [h] at heq
      cases heq

/-- No field starts with the separator. -/
theorem gmatchFields_separator (s : Bytes) : gmatchFields (byte '&' :: s) = gmatchFields s := by
  have hnone : matchField (byte '&' :: s) = none := by
    unfold matchField
    rw [List.dropWhile_cons_of_neg (by decide)]
    exact if_neg (by decide)
  rw [gmatchFields]
  split
  · rename_i heq
    rw [hnone] at heq
    cases heq
  · rfl

theorem formencode_cons (field : Field) (form : List Field) :
    ∃ t, formencode (field :: form) = encodeField field ++ t ∧ Ends t ∧
      gmatchFields t = gmatchFields (formencode form) := by
  unfold formencode
  cases form with
  | nil => exact ⟨[], by simp, Or.inl rfl, rfl⟩
  | cons next form =>
    refine ⟨byte '&' :: List.intercalate [byte '&'] ((next :: form).map encodeField), ?_,
      Or.inr ⟨_, rfl⟩, gmatchFields_separator _⟩
    simp [List.intercalate]

theorem gmatchFields_formencode (form : List Field) :
    (gmatchFields (formencode form)).map decodeField = form := by
  induction form with
  | nil => rw [formencode, List.map_nil, List.intercalate_nil, gmatchFields, List.map_nil]
  | cons field form ih =>
    obtain ⟨t, ht, hends, hrest⟩ := formencode_cons field form
    rw [ht, gmatchFields_of_some (matchField_encodeField field hends), List.map_cons,
      decodeField_encoded, hrest, ih]

theorem get_foldl_set (form : List Field) (name : Bytes) :
    (form.foldl (fun r field => r.set field.name (some field.value)) (∅ : Table Bytes Bytes)).get
      name = (form.reverse.find? fun field => field.name = name).map Field.value := by
  induction form using List.reverseRecOn with
  | nil => exact Table.get_empty name
  | append_singleton form field ih =>
    rw [List.foldl_append, List.foldl_cons, List.foldl_nil, Table.get_set, ih,
      List.reverse_append, List.reverse_singleton, List.singleton_append, List.find?_cons]
    by_cases heq : field.name = name
    · simp [heq]
    · simp [heq, Ne.symm heq]

/-- A form that is written and read again has the same fields, and each name leads to its last
value. What is written as part of an address is read back, too. -/
theorem forms_come_back (form : List Field) (h : form ≠ []) (s : Bytes) :
    (∃ values, formdecode (formencode form) = .form form values ∧
      ∀ name, values.get name =
        (form.reverse.find? fun field => field.name = name).map Field.value) ∧
      urldecode (urlencode s) = s := by
  refine ⟨⟨_, ?_, get_foldl_set form⟩, urldecode_urlencode s⟩
  have hmem : byte '=' ∈ formencode form := by
    obtain ⟨field, rest, rfl⟩ := List.exists_cons_of_ne_nil h
    obtain ⟨t, ht, -, -⟩ := formencode_cons field rest
    rw [ht, encodeField]
    simp
  unfold formdecode
  rw [if_pos hmem, gmatchFields_formencode]

/-- Every separator in a value, and a name that comes twice. -/
def orderForm : List Field :=
  [⟨bytes "to go", bytes "a&b=c%d+e"⟩, ⟨bytes "n", bytes "1"⟩, ⟨bytes "n", bytes ""⟩]

theorem orderForm_comes_back :
    (∃ values, formdecode (formencode orderForm) = .form orderForm values ∧
      ∀ name, values.get name =
        (orderForm.reverse.find? fun field => field.name = name).map Field.value) ∧
      urldecode (urlencode (bytes "50% off")) = bytes "50% off" :=
  forms_come_back orderForm (List.cons_ne_nil _ _) (bytes "50% off")

end Prosody.Urlencoded
