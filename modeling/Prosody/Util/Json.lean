import Mathlib.Data.Char
import Mathlib.Data.List.Lex
import Prosody.Library.Decimal
import Prosody.Library.Hexadecimal

/-! # JSON (`util/json.lua`)

A character stands for a byte. -/

namespace Prosody.Json

abbrev Text := List Char

/-- A value of the language. Arrays have the metatable of `util.array`, and the entries of other
tables are in the order of `pairs`. -/
inductive Value
  | null
  | boolean (b : Bool)
  | number (q : ℚ)
  | string (s : Text)
  | array (items : List Value)
  | table (entries : List (Value × Value))

/-- An entry of a table, as the texts of its key and its value. -/
structure Saved where
  key : Value
  keyText : Text
  text : Text

/-- What the language decides. -/
structure Lua where
  /-- Since 5.3, the metamethod of either operand decides whether tables are equal, and `ipairs`
  takes strings. -/
  modern : Bool
  /-- The order of `pairs` in a new table. -/
  pairs : List Saved → List Saved
  perm : ∀ entries, (pairs entries).Perm entries
  /-- What `tostring` makes of a number that is no integer. -/
  fraction : ℚ → Text

/-- A language whose tables keep the order in which they are given. -/
def Lua.keeping (modern : Bool) : Lua := ⟨modern, id, fun _ => List.Perm.refl _, fun _ => []⟩

/-! ## Encoding -/

def hexDigit (n : ℕ) : Char := (Nat.digitChar n).toUpper

def escapes (c : Char) : Text :=
  if c = '"' then ['\\', '"']
  else if c = '\\' then ['\\', '\\']
  else if c.toNat = 8 then ['\\', 'b']
  else if c.toNat = 12 then ['\\', 'f']
  else if c = '\n' then ['\\', 'n']
  else if c = '\r' then ['\\', 'r']
  else if c = '\t' then ['\\', 't']
  else if c.toNat < 32 then
    ['\\', 'u', '0', '0', hexDigit (c.toNat / 16), hexDigit (c.toNat % 16)]
  else [c]

def stringsave (s : Text) : Text := '"' :: (s.flatMap escapes ++ ['"'])

def tostring (lua : Lua) (q : ℚ) : Text :=
  if q.den = 1 then Decimal.general 14 q.num else lua.fraction q

def commas (texts : List Text) : Text := List.intercalate [','] texts

def arraysave (texts : List Text) : Text := '[' :: (commas texts ++ [']'])

/-- What is found from an index on, up to the first that is missing. -/
def sequence {α : Type} (find : ℕ → Option α) : ℕ → ℕ → List α
  | 0, _ => []
  | n + 1, i =>
    match find i with
    | none => []
    | some x => x :: sequence find n (i + 1)

def isNumber (i : ℕ) : Value → Bool
  | .number q => decide (q = i)
  | _ => false

/-- What `ipairs` comes to. -/
def arrayPart (entries : List Saved) : List Saved :=
  sequence (fun i => entries.find? fun e => isNumber i e.key) entries.length 1

/-- `__array[k] ~= nil`, where the array is so long. -/
def inArray (n : ℕ) : Value → Bool
  | .number q => decide (q.den = 1 ∧ 1 ≤ q.num ∧ q.num ≤ n)
  | _ => false

def specialKeys (s : Text) : Bool := decide (s = "__array".toList ∨ s = "__hash".toList)

def isPlain : Value → Bool
  | .string s => !specialKeys s
  | _ => false

/-- What the entry is sorted by. -/
def Saved.name (e : Saved) : Text :=
  match e.key with
  | .string s => s
  | _ => []

/-- The order of the members: that of `pairs`, or of the keys. -/
def members (lua : Lua) (ordered : Bool) (hash : List Saved) : List Saved :=
  if ordered then hash.mergeSort fun a b => decide (a.name ≤ b.name) else lua.pairs hash

def tablesave (lua : Lua) (ordered : Bool) (entries : List Saved) : Text :=
  let array := arrayPart entries
  let hash := entries.filter fun e => isPlain e.key
  let other := entries.filter fun e => !isPlain e.key && !inArray array.length e.key
  if other ≠ [] ∨ hash ≠ [] ∨ array = [] then
    '{' :: (commas (
      ((members lua ordered hash).map fun e => e.keyText ++ ':' :: e.text) ++
      (if other = [] then [] else ["\"__hash\":".toList ++
        arraysave ((lua.pairs other).flatMap fun e => [e.keyText, e.text])]) ++
      (if array = [] then []
        else ["\"__array\":".toList ++ arraysave (array.map Saved.text)])) ++ ['}'])
  else arraysave (array.map Saved.text)

mutual

def simplesave (lua : Lua) (ordered : Bool) : Value → Text
  | .null => "null".toList
  | .boolean true => "true".toList
  | .boolean false => "false".toList
  | .number q => tostring lua q
  | .string s => stringsave s
  | .array items =>
    -- `array == null`, which the metamethod of arrays answers
    if lua.modern = true ∧ items.isEmpty = true then "null".toList
    else arraysave (saveItems lua ordered items)
  | .table entries => tablesave lua ordered (saveEntries lua ordered entries)
termination_by structural v => v

def saveItems (lua : Lua) (ordered : Bool) : List Value → List Text
  | [] => []
  | v :: vs => simplesave lua ordered v :: saveItems lua ordered vs
termination_by structural vs => vs

def saveEntries (lua : Lua) (ordered : Bool) : List (Value × Value) → List Saved
  | [] => []
  | (k, v) :: es =>
    ⟨k, simplesave lua ordered k, simplesave lua ordered v⟩ :: saveEntries lua ordered es
termination_by structural es => es

end

def encode (lua : Lua) (v : Value) : Text := simplesave lua false v

def encodeOrdered (lua : Lua) (v : Value) : Text := simplesave lua true v

/-! ## Tables -/

/-- Keys are the same; tables are only the same as themselves. -/
def sameKey : Value → Value → Bool
  | .null, .null => true
  | .boolean a, .boolean b => decide (a = b)
  | .number a, .number b => decide (a = b)
  | .string a, .string b => decide (a = b)
  | _, _ => false

def get (entries : List (Value × Value)) (k : Value) : Option Value :=
  (entries.find? fun e => sameKey k e.1).map Prod.snd

def erase (entries : List (Value × Value)) (k : Value) : List (Value × Value) :=
  entries.filter fun e => !sameKey k e.1

def set (entries : List (Value × Value)) (k v : Value) : List (Value × Value) :=
  erase entries k ++ [(k, v)]

def items (entries : List (Value × Value)) : List Value :=
  sequence (fun i => get entries (.number i)) entries.length 1

/-- `ipairs`, which raises an error for most of what is not a table. -/
def ipairs (lua : Lua) : Value → Option (List Value)
  | .array vs => some vs
  | .table entries => some (items entries)
  | .null => some []
  | .string _ => if lua.modern then some [] else none
  | .number _ => none
  | .boolean _ => none

theorem eq_of_sameKey {k k' : Value} (h : sameKey k k' = true) : k = k' := by
  unfold sameKey at h
  split at h
  · rfl
  · rw [of_decide_eq_true h]
  · rw [of_decide_eq_true h]
  · rw [of_decide_eq_true h]
  · cases h

theorem get_erase_of_ne {entries : List (Value × Value)} {k k' : Value} (h : k ≠ k') :
    get (erase entries k) k' = get entries k' := by
  unfold get erase
  rw [List.find?_filter]
  congr 2
  funext e
  cases hsame : sameKey k' e.1 with
  | false => simp
  | true =>
    cases hk : sameKey k e.1 with
    | false => simp
    | true => exact absurd ((eq_of_sameKey hk).trans (eq_of_sameKey hsame).symm) h

theorem get_append (es es' : List (Value × Value)) (k : Value) :
    get (es ++ es') k = (get es k).or (get es' k) := by
  unfold get
  rw [List.find?_append]
  cases es.find? fun e => sameKey k e.1 <;> rfl

theorem get_set_of_ne {entries : List (Value × Value)} {k k' : Value} (h : k ≠ k') (v : Value) :
    get (set entries k v) k' = get entries k' := by
  unfold set
  rw [get_append, get_erase_of_ne h]
  have hnone : get [(k, v)] k' = none := by
    unfold get
    rw [Option.map_eq_none_iff, List.find?_eq_none]
    intro e he hsame
    rw [List.mem_singleton.mp he] at hsame
    exact h (eq_of_sameKey hsame).symm
  rw [hnone, Option.or_none]

/-- `table.insert`. -/
def insert (entries : List (Value × Value)) (v : Value) : List (Value × Value) :=
  set entries (.number ((items entries).length + 1 : ℕ)) v

/-- Keys and values take turns. -/
def pairUp : List (Value × Value) → Option Value → List Value → List (Value × Value)
  | entries, _, [] => entries
  | entries, none, k :: vs => pairUp entries (some k) vs
  | entries, some k, v :: vs => pairUp (set entries k v) none vs

/-- A value that is not `nil` or `false`. -/
def truthy : Option Value → Option Value
  | some (.boolean false) => none
  | v => v

def arrayName : Value := .string "__array".toList

def hashName : Value := .string "__hash".toList

/-- What a member stands for is put in its place. -/
def restore (lua : Lua) (name : Value)
    (add : List (Value × Value) → List Value → List (Value × Value))
    (o : List (Value × Value)) : Option (List (Value × Value)) :=
  match truthy (get o name) with
  | none => some o
  | some v => (ipairs lua v).map (add (erase o name))

def fixobject (lua : Lua) (o : List (Value × Value)) : Option (List (Value × Value)) :=
  (restore lua arrayName (fun o vs => vs.foldl insert o) o).bind
    (restore lua hashName fun o vs => pairUp o none vs)

/-! ## Decoding -/

/-- What is returned beside `nil`: a message, or the place behind what is no number. -/
inductive Failure
  | message (s : Text)
  | place (rest : Text)

inductive Outcome (α : Type)
  | value (v : α) (rest : Text)
  | failure (f : Failure)
  | raised
  /-- The fuel was not enough. -/
  | out

/-- What comes next, unless there is no value to go on with. -/
def Outcome.bind {α β : Type} (r : Outcome α) (f : α → Text → Outcome β) : Outcome β :=
  match r with
  | .value v rest => f v rest
  | .failure e => .failure e
  | .raised => .raised
  | .out => .out

def failed {α : Type} (s : String) : Outcome α := .failure (.message s.toList)

def isSpace (c : Char) : Bool := decide (c = ' ' ∨ c = '\t' ∨ c = '\r' ∨ c = '\n')

def skipWhitespace (s : Text) : Text :=
  match s.dropWhile isSpace with
  | [] => s
  | c :: t => c :: t

def codepointToUtf8 (code : ℕ) : Text :=
  if code < 0x80 then [Char.ofNat code]
  else if code < 0x800 then
    [Char.ofNat (0x80 + 0x40 + code / 64), Char.ofNat (0x80 + code % 64)]
  else [Char.ofNat (0x80 + 0x40 + 0x20 + code / 4096),
    Char.ofNat (0x80 + code % 4096 / 64), Char.ofNat (0x80 + code % 64)]

/-- Replacing from left to right what the pattern finds at a place, given by its replacement and its
length. Nothing comes of a replacement that is an error. -/
def gsub (found : Text → Option (Option Text × ℕ)) : ℕ → Text → Option Text
  | _, [] => some []
  | k + 1, _ :: s => gsub found k s
  | 0, c :: s =>
    match found (c :: s) with
    | none => (gsub found 0 s).map (c :: ·)
    | some (replacement, n) =>
      replacement.bind fun r => (gsub found (n - 1) s).map (r ++ ·)

/-- `\u[dD][89abAB]%x%x`, and the same for `[cdefCDEF]` if it is a trail. -/
def isSurrogate (trail : Bool) (s : Text) : Bool :=
  match s with
  | ['\\', 'u', a, b, c, d] =>
    decide (a = 'd' ∨ a = 'D') && b.isHexDigit && decide (8 ≤ Hexadecimal.value b) &&
      (decide (12 ≤ Hexadecimal.value b) == trail) && c.isHexDigit && d.isHexDigit
  | _ => false

def unescapeSurrogate (s : Text) : Text :=
  let lead := Hexadecimal.number ((s.drop 2).take 4)
  let trail := Hexadecimal.number ((s.drop 8).take 4)
  let codepoint := lead * 0x400 + trail - 0x35FDC00
  [Char.ofNat (0xF0 + codepoint / 64 / 64 / 64), Char.ofNat (0x80 + codepoint / 64 / 64 % 64),
    Char.ofNat (0x80 + codepoint / 64 % 64), Char.ofNat (0x80 + codepoint % 64)]

def surrogateAt (s : Text) : Option (Option Text × ℕ) :=
  if isSurrogate false (s.take 6) = true ∧ isSurrogate true ((s.drop 6).take 6) = true then
    some (some (unescapeSurrogate s), 12)
  else none

/-- What is no character by itself is an error, like an escape without four digits. -/
def unescape (digits : Text) : Option Text :=
  if digits.length = 4 ∧ digits.all Char.isHexDigit = true then
    let codepoint := Hexadecimal.number digits
    if 0xD800 ≤ codepoint ∧ codepoint ≤ 0xDFFF then none else some (codepointToUtf8 codepoint)
  else none

def escapeAt (s : Text) : Option (Option Text × ℕ) :=
  if s.take 2 = ['\\', 'u'] then
    some (unescape ((s.drop 2).take 4), 2 + ((s.drop 2).take 4).length)
  else none

/-- The string from behind its first quote on. -/
def readString (s : Text) : Outcome Text :=
  match s.dropWhile (· ≠ '"') with
  | [] => failed "string eof"
  | _ :: rest =>
    match (gsub surrogateAt 0 (s.takeWhile (· ≠ '"'))).bind (gsub escapeAt 0) with
    | none => failed "invalid escape"
    | some t => .value t rest

/-- `[0-9%.%-eE%+]`. -/
def numberChar (c : Char) : Bool :=
  c.isDigit || decide (c = '.' ∨ c = '-' ∨ c = 'e' ∨ c = 'E' ∨ c = '+')

def readNumber (s : Text) : Outcome Value :=
  match Decimal.read (s.takeWhile numberChar) with
  | none => .failure (.place (s.dropWhile numberChar))
  | some q => .value (.number q) (s.dropWhile numberChar)

def readWord (word : Text) (v : Value) (error : String) (s : Text) : Outcome Value :=
  if s.take word.length = word then .value v (s.drop word.length) else failed error

def closeObject (lua : Lua) (o : List (Value × Value)) (rest : Text) : Outcome Value :=
  match fixobject lua o with
  | none => .raised
  | some o => .value (.table o) rest

mutual

def readValue (lua : Lua) : ℕ → Text → Outcome Value
  | 0, _ => .out
  | n + 1, s =>
    match skipWhitespace s with
    | [] => failed "value expected"
    | b :: t =>
      if b = '{' then readObject lua n t []
      else if b = '[' then readArray lua n t t []
      else if b = '"' then (readString t).bind fun s rest => .value (.string s) rest
      else if b.isDigit = true ∨ b = '-' then readNumber (b :: t)
      else if b = 'n' then readWord "ull".toList .null "null parse failed" t
      else if b = 't' then readWord "rue".toList (.boolean true) "true parse failed" t
      else if b = 'f' then readWord "alse".toList (.boolean false) "false parse failed" t
      else failed "value expected"
termination_by structural n => n

/-- An object, from behind a brace or a comma on. -/
def readObject (lua : Lua) : ℕ → Text → List (Value × Value) → Outcome Value
  | 0, _, _ => .out
  | n + 1, s, o =>
    match skipWhitespace s with
    | '"' :: t => (readString t).bind fun key rest =>
      match skipWhitespace rest with
      | ':' :: t => (readValue lua n t).bind fun val rest =>
        let o := set o (.string key) val
        match skipWhitespace rest with
        | '}' :: t => closeObject lua o t
        | ',' :: t => readObject lua n t o
        | _ => failed "object eof"
      | _ => failed "colon expected"
    | '}' :: t => .value (.table o) t
    | _ => failed "key expected"
termination_by structural n => n

/-- An array that starts at `start`, from behind a bracket or a comma on. -/
def readArray (lua : Lua) : ℕ → Text → Text → List Value → Outcome Value
  | 0, _, _, _ => .out
  | n + 1, start, s, a =>
    match readValue lua n s with
    | .value val rest =>
      match skipWhitespace rest with
      | ']' :: t => .value (.array (a ++ [val])) t
      | ',' :: t => readArray lua n start t (a ++ [val])
      | _ => failed "array eof"
    | .failure f =>
      match start with
      | ']' :: t => .value (.array a) t
      | _ => .failure f
    | .raised => .raised
    | .out => .out
termination_by structural n => n

end

def firstEscape (c : Char) : Text :=
  if c = '"' then "\\u0022".toList
  else if c = '\\' then "\\u005c".toList
  else if c = '/' then "\\u002f".toList
  else if c = 'b' then "\\u0008".toList
  else if c = 'f' then "\\u000C".toList
  else if c = 'n' then "\\u000A".toList
  else if c = 'r' then "\\u000D".toList
  else if c = 't' then "\\u0009".toList
  else ['\\', c]

/-- All escapes but `\u` are gone before anything is read. -/
def firstEscapes : Text → Text
  | [] => []
  | [c] => [c]
  | c :: d :: s => if c = '\\' then firstEscape d ++ firstEscapes s else c :: firstEscapes (d :: s)

inductive Result
  | value (v : Value)
  | failure (f : Failure)
  | raised
  | out

def decode (lua : Lua) (json : Text) : Result :=
  let json := firstEscapes json
  match readValue lua (2 * json.length + 1) json with
  | .value v rest =>
    if rest.all isSpace then .value v else .failure (.message "garbage at eof".toList)
  | .failure f => .failure f
  | .raised => .raised
  | .out => .out

end Prosody.Json
