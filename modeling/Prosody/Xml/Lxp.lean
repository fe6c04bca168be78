import Prosody.Library.Assign
import Prosody.Library.Pieces
import Prosody.Xml.Stanza

/-! # The parser in Lua (`fallbacks/lxp.lua`) -/

namespace Prosody.Xml

/-! ## Entities -/

/-- What Lua does outside of the language's core. -/
structure Lua where
  /-- The order in which `pairs` enumerates keys. -/
  pairs : KeyOrder Text
  /-- The character with a number as it is spelt after `#`, if there is one. -/
  charRef : Text → Option Text

variable (L : Lua)

/-- What `entity_map` has for a name, unless an error is raised. -/
def Lua.entityMap (s : Text) : Option (Option Text) :=
  if s = "amp".toList then some (some ['&'])
  else if s = "gt".toList then some (some ['>'])
  else if s = "lt".toList then some (some ['<'])
  else if s = "apos".toList then some (some ['\''])
  else if s = "quot".toList then some (some ['"'])
  else if s.head? = some '#' then (L.charRef s.tail).map some
  else some none

/-- Entities are replaced in one pass, of at most so many steps. -/
def Lua.unescapeUpTo : ℕ → Text → Option Text
  | 0, s => some s
  | _ + 1, [] => some []
  | n + 1, c :: s =>
    if c = '&' ∧ ';' ∈ s then
      (L.entityMap (s.takeWhile (· ≠ ';'))).bind fun r =>
        (Lua.unescapeUpTo n (s.dropWhile (· ≠ ';')).tail).map fun t =>
          r.getD ('&' :: (s.takeWhile (· ≠ ';') ++ [';'])) ++ t
    else (Lua.unescapeUpTo n s).map (c :: ·)

def Lua.xmlUnescape (str : Text) : Option Text := L.unescapeUpTo str.length str

/-! ## Tags -/

def isSpace (c : Char) : Bool :=
  c = ' ' || c = '\t' || c = '\n' || c = '\r' || c = Char.ofNat 11 || c = Char.ofNat 12

def isQuote (c : Char) : Bool := c = '\'' || c = '"'

/-- An attribute at the start of a string, its value and what follows. -/
def matchAttr (s : Text) : Option (Text × Text × Text) :=
  let name := s.takeWhile fun c => !(c = '=' || isSpace c)
  match s.dropWhile fun c => !(c = '=' || isSpace c) with
  | '=' :: q :: rest =>
    if name ≠ [] ∧ isQuote q ∧ rest.any isQuote then
      some (name, rest.takeWhile (!isQuote ·), (rest.dropWhile (!isQuote ·)).tail)
    else none
  | _ => none

/-- The attributes in a string, found in at most so many steps. -/
def attrPairs : ℕ → Text → List (Text × Text)
  | 0, _ => []
  | n + 1, s =>
    match matchAttr s with
    | some (a, b, rest) => (a, b) :: attrPairs n rest
    | none => if s = [] then [] else attrPairs n s.tail

/-- The name in a tag and its attributes, unless an error is raised. -/
def Lua.parseTag (s : Text) : Option (Text × Table Text Text) :=
  let name := (s.dropWhile isSpace).takeWhile (!isSpace ·)
  let sattr := (s.dropWhile isSpace).dropWhile (!isSpace ·)
  if name = [] then none
  else
    ((attrPairs sattr.length sattr).mapM fun p => (L.xmlUnescape p.2).map (Prod.mk p.1)).map
      fun attr => (name, Table.assign Prod.fst (fun p => some p.2) ∅ attr)

/-! ## Namespaces -/

/-- The namespaces declared by a tag, and the tag itself where there is one. -/
structure Scope where
  decls : Table Text Text
  tag : Option Text

def xmlUri : Text := "http://www.w3.org/XML/1998/namespace".toList

def baseScope : Scope := ⟨(∅ : Table Text Text).set "xml".toList (some xmlUri), none⟩

inductive Field
  | uri (u : Text)
  | missing
  /-- The field `__index`, where it has not been declared by the same tag. -/
  | scope
deriving DecidableEq

/-- Looking a prefix up, first among what the tag itself declares. -/
def lookup (decls : Table Text Text) (ns : List Scope) (p : Text) : Field :=
  match decls.get p with
  | some u => .uri u
  | none =>
    if p = "__index".toList then .scope
    else
      match ns.findSome? fun scope => scope.decls.get p with
      | some u => .uri u
      | none => .missing

/-- A name with its namespace, unless an error is raised. -/
def applyNs (decls : Table Text Text) (ns : List Scope) (name : Text) (dodefault : Bool) :
    Option Text :=
  let field := if ':' ∈ name then lookup decls ns (name.takeWhile (· ≠ ':')) else .missing
  match field with
  | .uri u => some (u ++ nsSeparator :: (name.dropWhile (· ≠ ':')).tail)
  | .scope => none
  | .missing =>
    match if dodefault then lookup decls ns [] else .missing with
    | .uri u => some (u ++ nsSeparator :: name)
    | _ => some name

def declared (k : Text) : Option Text :=
  if k = "xmlns".toList then some []
  else if "xmlns:".toList <+: k then some (k.drop 6)
  else none

/-- Attributes as handlers get them: the names in some order, and the values. -/
structure Attr where
  names : List Text
  values : Table Text Text

def Lua.declarations (attr : Table Text Text) : Table Text Text :=
  Table.assign (fun k => (declared k).getD []) attr.get ∅
    ((L.pairs.keys attr.keys).filter fun k => (declared k).isSome)

/-- The attributes that declare nothing, with their namespaces. -/
def Lua.newAttr (decls : Table Text Text) (ns : List Scope) (attr : Table Text Text) :
    Option Attr :=
  let rest := attr.filter fun k _ => (declared k).isNone
  ((L.pairs.keys rest.keys).mapM fun k =>
      (applyNs decls ns k false).map fun k' => (k', rest.get k)).map fun new =>
    ⟨new.map Prod.fst, Table.assign Prod.fst Prod.snd ∅ new⟩

/-- The new scope, the tag and its attributes. -/
def Lua.push (ns : List Scope) (tag : Text) (attr : Table Text Text) :
    Option (List Scope × Text × Attr) :=
  let decls := L.declarations attr
  (L.newAttr decls ns attr).bind fun newattr =>
    (applyNs decls ns tag true).map fun tag => (⟨decls, some tag⟩ :: ns, tag, newattr)

/-! ## The parser -/

structure Handlers (σ : Type*) where
  startElement : σ → Text → Attr → σ
  endElement : σ → Option Text → σ
  characterData : σ → Text → σ

structure Parser (σ : Type*) where
  ns : List Scope
  state : σ

variable {σ : Type*} (H : Handlers σ)

def Parser.startTag (p : Parser σ) (elem : Text) : Option (Parser σ) :=
  (L.parseTag elem).bind fun t =>
    (L.push p.ns t.1 t.2).map fun r => ⟨r.1, H.startElement p.state r.2.1 r.2.2⟩

def Parser.endTag (p : Parser σ) : Option (Parser σ) :=
  match p.ns with
  | [] => none
  | scope :: ns => some ⟨ns, H.endElement p.state scope.tag⟩

/-- What stands between `<` and `>`, unless an error is raised. -/
def Parser.markup (p : Parser σ) (elem : Text) : Option (Parser σ) :=
  if elem.head? = some '!' ∨ elem.head? = some '?' then some p
  else if elem.head? = some '/' then p.endTag H
  else if elem.getLast? = some '/' then (p.startTag L H elem.dropLast).bind (Parser.endTag H)
  else p.startTag L H elem

def Parser.text (p : Parser σ) (text : Text) : Option (Parser σ) :=
  (L.xmlUnescape text).map fun data => { p with state := H.characterData p.state data }

/-- One round of the parser's loop, or none if it waits for data or is dead. -/
def turn (p : Option (Parser σ)) (data : Text) : Option (Option (Parser σ) × Text) :=
  p.bind fun p =>
    if data = [] then none
    else if data.head? = some '<' then
      if '>' ∈ data then
        some (p.markup L H (data.tail.takeWhile (· ≠ '>')), (data.dropWhile (· ≠ '>')).tail)
      else none
    else if '<' ∈ data then
      some (p.text L H (data.takeWhile (· ≠ '<')), data.dropWhile (· ≠ '<'))
    else none

/-- The parser gets pieces of data. -/
def parse (p : Option (Parser σ) × Text) (pieces : List Text) : Option (Parser σ) × Text :=
  Pieces.feedAll (turn L H) p pieces

end Prosody.Xml
