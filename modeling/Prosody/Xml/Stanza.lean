import Prosody.Library.Table

/-! # Stanzas and their text (`util/stanza.lua`) -/

namespace Prosody.Xml

abbrev Text := List Char

/-- What separates a namespace from a local name. -/
def nsSeparator : Char := Char.ofNat 1

inductive Node
  | text (s : Text)
  | elem (name : Text) (attr : Table Text Text) (children : List Node)

def escapeChar (c : Char) : Text :=
  if c = '\'' then "&apos;".toList
  else if c = '"' then "&quot;".toList
  else if c = '<' then "&lt;".toList
  else if c = '>' then "&gt;".toList
  else if c = '&' then "&amp;".toList
  else [c]

def xmlEscape (s : Text) : Text := s.flatMap escapeChar

def attrText (k v : Text) : Text := ' ' :: (k ++ '=' :: '\'' :: (xmlEscape v ++ ['\'']))

def nsPrefix (nsid : ℕ) : Text := 'n' :: 's' :: Nat.toDigits 10 nsid

/-- What stands before the separator, and what after it. -/
def splitNs (k : Text) : Text × Text :=
  (k.takeWhile (· ≠ nsSeparator), (k.dropWhile (· ≠ nsSeparator)).tail)

def attrsText (attr : Table Text Text) (parentns : Option Text) : List Text → ℕ → Text
  | [], _ => []
  | k :: ks, nsid =>
    let v := (attr.get k).getD []
    if nsSeparator ∈ k then
      attrText ("xmlns:".toList ++ nsPrefix (nsid + 1)) (splitNs k).1 ++
        (attrText (nsPrefix (nsid + 1) ++ ':' :: (splitNs k).2) v ++
          attrsText attr parentns ks (nsid + 1))
    else if k = "xmlns".toList ∧ some v = parentns then attrsText attr parentns ks nsid
    else attrText k v ++ attrsText attr parentns ks nsid

variable (pairs : KeyOrder Text)

mutual

def Node.dostring (parentns : Option Text) : Node → Text
  | .text s => xmlEscape s
  | .elem name attr children =>
    '<' :: (name ++ attrsText attr parentns (pairs.keys attr.keys) 0) ++
      if children = [] then "/>".toList
      else '>' :: (Node.dostringAll (attr.get "xmlns".toList) children ++
        ('<' :: '/' :: (name ++ ['>'])))

def Node.dostringAll (parentns : Option Text) : List Node → Text
  | [] => []
  | child :: children => Node.dostring parentns child ++ Node.dostringAll parentns children

end

/-- `tostring` of a stanza. -/
def Node.tostring (stanza : Node) : Text := stanza.dostring pairs none

end Prosody.Xml
