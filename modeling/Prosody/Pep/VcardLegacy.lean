import Prosody.Xml.Builder

/-! # Conversion of vCards (`mod_vcard_legacy.lua`) -/

namespace Prosody.Pep.Vcard

open Prosody.Xml

def simpleMap : List (Text × Text) :=
  [("nickname".toList, "text".toList), ("title".toList, "text".toList),
   ("role".toList, "text".toList), ("categories".toList, "text".toList),
   ("note".toList, "text".toList), ("url".toList, "uri".toList),
   ("bday".toList, "date".toList)]

def upper (s : Text) : Text := s.map Char.toUpper

def lower (s : Text) : Text := s.map Char.toLower

def attrs (pairs : List (Text × Option Text)) : Table Text Text :=
  pairs.foldl (fun t p => t.set p.1 p.2) ∅

/-! ### From vcard4 to vcard-temp -/

/-- An avatar as the two nodes have it: what its `info` says, and the text of its data. -/
structure Avatar where
  info : Option (Option Text × Option Text)
  data : Option (Option Text)

namespace Avatar

def type (avatar : Avatar) : Option Text := avatar.info.bind (·.1)

def url (avatar : Avatar) : Option Text := avatar.info.bind (·.2)

end Avatar

/-- The end of the branches for `email`, `tel` and `adr`. -/
def endMarked (vcardTemp : Builder) (tag : Node) : Builder :=
  let kind := tag.findText ["parameters".toList, "type".toList, "text".toList]
  (if kind = some "home".toList then (vcardTemp.tag "HOME".toList ∅).up
    else if kind = some "work".toList then (vcardTemp.tag "WORK".toList ∅).up
    else vcardTemp).up

/-- The properties that `simple_map` does not know. -/
def getOther (vcardTemp : Builder) (tag : Node) : Builder :=
  if tag.name = "email".toList then
    match tag.getChildText "text".toList with
    | some text =>
      endMarked ((((vcardTemp.tag "EMAIL".toList ∅).textTag "USERID".toList (some text)).tag
        "INTERNET".toList ∅).up) tag
    | none => vcardTemp
  else if tag.name = "tel".toList then
    match tag.getChildText "uri".toList with
    | some text =>
      let text := if text.take 4 = "tel:".toList then text.drop 4 else text
      endMarked ((vcardTemp.tag "TEL".toList ∅).textTag "NUMBER".toList (some text)) tag
    | none => vcardTemp
  else if tag.name = "adr".toList then
    endMarked ((((((((vcardTemp.tag "ADR".toList ∅).textTag
      "POBOX".toList (tag.getChildText "pobox".toList)).textTag
      "EXTADD".toList (tag.getChildText "ext".toList)).textTag
      "STREET".toList (tag.getChildText "street".toList)).textTag
      "LOCALITY".toList (tag.getChildText "locality".toList)).textTag
      "REGION".toList (tag.getChildText "region".toList)).textTag
      "PCODE".toList (tag.getChildText "code".toList)).textTag
      "CTRY".toList (tag.getChildText "country".toList)) tag
  else vcardTemp

def getTag (vcardTemp : Builder) (tag : Node) : Builder :=
  match simpleMap.lookup tag.name with
  | some typ =>
    match tag.getChildText typ with
    | some text => vcardTemp.textTag (upper tag.name) (some text)
    | none => vcardTemp
  | none => getOther vcardTemp tag

def getAvatar (vcardTemp : Builder) (avatar : Avatar) : Builder :=
  let b := vcardTemp.tag "PHOTO".toList ∅
  let b := if avatar.type.isSome then b.textTag "TYPE".toList avatar.type else b
  let b := match avatar.data with
    | some text => b.textTag "BINVAL".toList text
    | none => if avatar.url.isSome then b.textTag "EXTVAL".toList avatar.url else b
  b.up

/-- The `FN`, the `N` and the ladder, for the item's first element. -/
def getVcard (vcardTemp : Builder) (vcard4 : Node) : Builder :=
  let fn := vcard4.getChild "fn".toList none
  let b := vcardTemp.textTag "FN".toList (fn.bind (·.getChildText "text".toList))
  let v4n := vcard4.getChild "n".toList none
  let b := ((((((b.tag "N".toList ∅).textTag
    "FAMILY".toList (v4n.bind (·.getChildText "surname".toList))).textTag
    "GIVEN".toList (v4n.bind (·.getChildText "given".toList))).textTag
    "MIDDLE".toList (v4n.bind (·.getChildText "additional".toList))).textTag
    "PREFIX".toList (v4n.bind (·.getChildText "prefix".toList))).textTag
    "SUFFIX".toList (v4n.bind (·.getChildText "suffix".toList))).up
  vcard4.childtags.foldl getTag b

/-- `iq-get/bare/vcard-temp:vCard`, for the last item of the node, the avatars and what is in
the old store. An item without an element raises. -/
def get (item : Option Node) (avatars : List Avatar) (stored : Option Node) : Option Node :=
  let vcardTemp := Builder.stanza "vCard".toList
    (attrs [("xmlns".toList, some "vcard-temp".toList)])
  let converted := match item with
    | some item => item.tags.head?.map (getVcard vcardTemp)
    | none => some vcardTemp
  converted.map fun b =>
    let answer := (avatars.foldl getAvatar b).node
    if answer.tags = [] then stored.getD answer else answer

/-! ### From vcard-temp to vcard4 -/

structure Publication where
  node : Text
  id : Text
  item : Node

/-- What the handler calls: `publish` gives the error of a refused item. -/
structure Service where
  publish : Publication → Option Text
  base64Decode : Text → Option Text
  sha1 : Text → Text

inductive Failure
  | raised
  | refused (err : Text)

structure Conversion where
  vcard4 : Builder
  published : List Publication

def Conversion.publish (service : Service) (c : Conversion) (p : Publication) :
    Except Failure Conversion :=
  match service.publish p with
  | none => .ok { c with published := c.published ++ [p] }
  | some err => .error (.refused err)

/-- The end of the branches for `EMAIL`, `TEL` and `ADR`. -/
def endParameters (vcard4 : Builder) (tag : Node) : Builder :=
  let b := (vcard4.tag "parameters".toList ∅).tag "type".toList ∅
  (if (tag.getChild "HOME".toList none).isSome then b.textTag "text".toList (some "home".toList)
    else if (tag.getChild "WORK".toList none).isSome then
      b.textTag "text".toList (some "work".toList)
    else b).up.up.up

/-- The branch for `PHOTO`. -/
def setPhoto (service : Service) (c : Conversion) (tag : Node) : Except Failure Conversion :=
  match tag.getChildText "BINVAL".toList with
  | none => .ok c
  | some payload =>
    match service.base64Decode payload with
    | none => .error .raised
    | some raw =>
      let hash := service.sha1 raw
      let item := Builder.stanza "item".toList
        (attrs [("id".toList, some hash),
          ("xmlns".toList, some "http://jabber.org/protocol/pubsub".toList)])
      let avatarMeta := (item.tag "metadata".toList
        (attrs [("xmlns".toList, some "urn:xmpp:avatar:metadata".toList)])).tag "info".toList
        (attrs [("bytes".toList, some (Nat.toDigits 10 raw.length)), ("id".toList, some hash),
          ("type".toList, tag.getChildText "TYPE".toList)])
      let avatarData := (item.tag "data".toList
        (attrs [("xmlns".toList, some "urn:xmpp:avatar:data".toList)])).text (some payload)
      (c.publish service ⟨"urn:xmpp:avatar:data".toList, hash, avatarData.node⟩).bind
        (Conversion.publish service ·
          ⟨"urn:xmpp:avatar:metadata".toList, hash, avatarMeta.node⟩)

/-- The properties that `simple_map` does not know, photos apart. -/
def setOther (vcard4 : Builder) (tag : Node) : Builder :=
  if tag.name = "EMAIL".toList then
    match tag.getChildText "USERID".toList with
    | some text =>
      endParameters ((vcard4.tag "email".toList ∅).textTag "text".toList (some text)) tag
    | none => vcard4
  else if tag.name = "TEL".toList then
    -- the parameters are written, and the cursor moved up, with or without a number
    match tag.getChildText "NUMBER".toList with
    | some text =>
      endParameters
        ((vcard4.tag "tel".toList ∅).textTag "uri".toList (some ("tel:".toList ++ text))) tag
    | none => endParameters vcard4 tag
  else if tag.name = "ORG".toList then
    match tag.getChildText "ORGNAME".toList with
    | some text => ((vcard4.tag "org".toList ∅).textTag "text".toList (some text)).up
    | none => vcard4
  else if tag.name = "DESC".toList then
    match tag.getText with
    | some text => ((vcard4.tag "note".toList ∅).textTag "text".toList (some text)).up
    | none => vcard4
  else if tag.name = "ADR".toList then
    endParameters ((((((((vcard4.tag "adr".toList ∅).textTag
      "pobox".toList (tag.getChildText "POBOX".toList)).textTag
      "ext".toList (tag.getChildText "EXTADD".toList)).textTag
      "street".toList (tag.getChildText "STREET".toList)).textTag
      "locality".toList (tag.getChildText "LOCALITY".toList)).textTag
      "region".toList (tag.getChildText "REGION".toList)).textTag
      "code".toList (tag.getChildText "PCODE".toList)).textTag
      "country".toList (tag.getChildText "CTRY".toList)) tag
  else vcard4

def setTag (vcard4 : Builder) (tag : Node) : Builder :=
  match simpleMap.lookup (lower tag.name) with
  | some typ =>
    match tag.getText with
    | some text => ((vcard4.tag (lower tag.name) ∅).textTag typ (some text)).up
    | none => vcard4
  | none => setOther vcard4 tag

def setProperty (service : Service) (c : Conversion) (tag : Node) : Except Failure Conversion :=
  if tag.name = "PHOTO".toList then setPhoto service c tag
  else .ok { c with vcard4 := setTag c.vcard4 tag }

/-- The `<fn/>` and the `<n/>`, under a `<vcard/>` that stays open. -/
def setNames (vcardTemp : Node) : Builder :=
  let b := (Builder.stanza "item".toList
    (attrs [("xmlns".toList, some "http://jabber.org/protocol/pubsub".toList),
      ("id".toList, some "current".toList)])).tag "vcard".toList
    (attrs [("xmlns".toList, some "urn:ietf:params:xml:ns:vcard-4.0".toList)])
  let b := ((b.tag "fn".toList ∅).textTag "text".toList (vcardTemp.getChildText "FN".toList)).up
  let n := vcardTemp.getChild "N".toList none
  ((((((b.tag "n".toList ∅).textTag
    "surname".toList (n.bind (·.getChildText "FAMILY".toList))).textTag
    "given".toList (n.bind (·.getChildText "GIVEN".toList))).textTag
    "additional".toList (n.bind (·.getChildText "MIDDLE".toList))).textTag
    "prefix".toList (n.bind (·.getChildText "PREFIX".toList))).textTag
    "suffix".toList (n.bind (·.getChildText "SUFFIX".toList))).up

/-- `iq-set/self/vcard-temp:vCard`: what is published, in order. -/
def set (service : Service) (vcardTemp : Node) : Except Failure (List Publication) := do
  let c ← vcardTemp.childtags.foldlM (setProperty service) ⟨setNames vcardTemp, []⟩
  let c ← c.publish service ⟨"urn:xmpp:vcard4".toList, "current".toList, c.vcard4.node⟩
  return c.published

end Prosody.Pep.Vcard
