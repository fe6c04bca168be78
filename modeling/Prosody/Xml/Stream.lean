import Prosody.Xml.Lxp

/-! # From tags to stanzas (`util/xmppstream.lua`) -/

namespace Prosody.Xml

/-- `stream_callbacks`, as far as it is not functions. -/
structure Callbacks where
  streamNs : Text
  streamTag : Text
  errorTag : Text
  defaultNs : Option Text

def Callbacks.openingTag (C : Callbacks) : Text :=
  if C.streamNs ≠ [] then C.streamNs ++ nsSeparator :: C.streamTag else C.streamTag

def Callbacks.streamErrorTag (C : Callbacks) : Text := C.streamNs ++ nsSeparator :: C.errorTag

/-- A call back to the session. -/
inductive Event
  | streamopened (attr : Table Text Text)
  | streamclosed
  | handlestanza (stanza : Node)
  | noStream (tagname : Text)
  | invalidTopLevelElement
  | streamError (stanza : Node)

/-- An element that has not ended yet. -/
structure Open where
  name : Text
  attr : Table Text Text
  children : List Node

def Open.close (o : Open) : Node := .elem o.name o.attr o.children

/-- The elements that are open, the innermost one first, and what has been gathered. -/
structure Stream where
  opened : List Open
  chardata : List Text
  nonStreamnsDepth : ℕ
  notopen : Bool
  events : List Event

namespace Stream

/-- The character data in the buffer becomes a child. -/
def flush (s : Stream) : Stream :=
  match s.opened with
  | [] => s
  | o :: os =>
    if s.chardata = [] then s
    else
      { s with
        opened := { o with children := o.children ++ [.text s.chardata.flatten] } :: os
        chardata := [] }

def emit (s : Stream) (e : Event) : Stream := { s with events := s.events ++ [e] }

/-- The namespace of a tag and its local name. -/
def splitTag (tagname : Text) : Text × Text :=
  if (splitNs tagname).2 = [] then ([], (splitNs tagname).1) else splitNs tagname

def xmlNamespace (k : Text) : Option Text :=
  if k = xmlUri ++ nsSeparator :: "lang".toList then some "xml:lang".toList
  else if k = xmlUri ++ nsSeparator :: "space".toList then some "xml:space".toList
  else if k = xmlUri ++ nsSeparator :: "base".toList then some "xml:base".toList
  else if k = xmlUri ++ nsSeparator :: "id".toList then some "xml:id".toList
  else none

/-- The attributes of the `xml` namespace get their usual names. -/
def renameAttrs (names : List Text) (attr : Table Text Text) : Table Text Text :=
  names.foldl (fun attr k => (xmlNamespace k).elim attr fun xmlk =>
    (attr.set xmlk (attr.get k)).set k none) attr

def isStanzaName (name : Text) : Prop :=
  name = "iq".toList ∨ name = "presence".toList ∨ name = "message".toList

instance (name : Text) : Decidable (isStanzaName name) := inferInstanceAs (Decidable (_ ∨ _))

variable (C : Callbacks)

/-- Whether a tag gets its namespace as an attribute. -/
def Foreign (s : Stream) (currNs : Text) : Prop :=
  some currNs ≠ C.defaultNs ∨ 0 < s.nonStreamnsDepth

instance (s : Stream) (currNs : Text) : Decidable (s.Foreign C currNs) :=
  inferInstanceAs (Decidable (_ ∨ _))

/-- The session is taken to be open once it has been told so. -/
def startElement (s : Stream) (tagname : Text) (attr : Attr) : Stream :=
  let s := s.flush
  let currNs := (splitTag tagname).1
  let name := (splitTag tagname).2
  let values := if s.Foreign C currNs then attr.values.set "xmlns".toList (some currNs)
    else attr.values
  let s := if s.Foreign C currNs then { s with nonStreamnsDepth := s.nonStreamnsDepth + 1 } else s
  let values := renameAttrs attr.names values
  if s.opened = [] then
    if s.notopen then
      if tagname = C.openingTag then
        { s with nonStreamnsDepth := 0, notopen := false }.emit (.streamopened values)
      else s.emit (.noStream tagname)
    else
      let s := if currNs = "jabber:client".toList ∧ ¬ isStanzaName name then
        s.emit .invalidTopLevelElement else s
      { s with opened := [⟨name, values, []⟩] }
  else { s with opened := ⟨name, values, []⟩ :: s.opened }

def characterData (s : Stream) (data : Text) : Stream :=
  if s.opened = [] then s else { s with chardata := s.chardata ++ [data] }

def endElement (s : Stream) (tagname : Option Text) : Stream :=
  let s := { s with nonStreamnsDepth := s.nonStreamnsDepth - 1 }.flush
  match s.opened with
  | [] => s.emit .streamclosed
  | [o] =>
    { s with opened := [] }.emit
      (if tagname = some C.streamErrorTag then .streamError o.close else .handlestanza o.close)
  | o :: o' :: os =>
    { s with opened := { o' with children := o'.children ++ [o.close] } :: os }

end Stream

/-- `new_sax_handlers`. -/
def saxHandlers (C : Callbacks) : Handlers Stream where
  startElement := Stream.startElement C
  endElement := Stream.endElement C
  characterData := Stream.characterData

end Prosody.Xml
