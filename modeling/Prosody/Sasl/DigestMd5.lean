import Prosody.Library.Runs
import Prosody.Library.Table
import Prosody.Sasl.Scram

/-! # DIGEST-MD5 (`util/sasl/digest-md5.lua`) -/

namespace Prosody.DigestMd5

open Pattern (Item Found)
open Scram (Bytes bytes char comma Account)

/-! ## Messages -/

/-- `%w` -/
def alphanumeric (c : UInt8) : Bool :=
  (48 ≤ c && c ≤ 57) || (65 ≤ c && c ≤ 90) || (97 ≤ c && c ≤ 122)

def dash : UInt8 := 45

def quote : UInt8 := 34

def slash : UInt8 := 47

def directiveName (c : UInt8) : Bool := alphanumeric c || c == dash

def directiveValue (c : UInt8) : Bool := c != quote && c != comma && c != 0

/-- `([%w%-]+)="?([^",%z]*)"?,?` -/
def directivePattern : List (Item UInt8) :=
  [.group [.one directiveName, .many directiveName], .one (char '='), .opt (· == quote),
    .group [.many directiveValue], .opt (· == quote), .opt (· == comma)]

/-- `gmatch` with a pattern that matches no empty text, so often at most. -/
def gmatch (items : List (Item UInt8)) : ℕ → Bytes → List (List Bytes)
  | 0, _ => []
  | n + 1, s =>
    match Pattern.search items s with
    | some (_, f) => f.captures :: gmatch items n f.rest
    | none => []

abbrev Directives := Table Bytes Bytes

def put (message : Directives) : List Bytes → Directives
  | [k, v] => message.set k (some v)
  | _ => message

def parse (data : Bytes) : Directives :=
  (gmatch directivePattern data.length data).foldl put ∅

/-- `(%w+)/(.*)$` -/
def uriPattern : List (Item UInt8) :=
  [.group [.one alphanumeric, .many alphanumeric], .one (· == slash),
    .group [.many fun _ => true], .stop]

/-- The protocol and the domain of a digest-uri. -/
def splitUri (uri : Bytes) : Option (Bytes × Bytes) :=
  (Pattern.search uriPattern uri).bind fun (_, f) =>
    match f.captures with
    | [protocol, domain] => some (protocol, domain)
    | _ => none

structure Message where
  realm : Option Bytes := none
  nonce : Option Bytes := none
  qop : Option Bytes := none
  charset : Option Bytes := none
  algorithm : Option Bytes := none
  rspauth : Option Bytes := none

def quoted (name : String) : Option Bytes → Bytes
  | some v => bytes name ++ bytes "=\"" ++ v ++ bytes "\","
  | none => []

def unquoted (name : String) : Option Bytes → Bytes
  | some v => bytes name ++ bytes "=" ++ v ++ bytes ","
  | none => []

def serialize (message : Message) : Bytes :=
  let data := quoted "realm" message.realm ++ quoted "nonce" message.nonce ++
    quoted "qop" message.qop ++ unquoted "charset" message.charset ++
    unquoted "algorithm" message.algorithm ++ unquoted "rspauth" message.rspauth
  if data.getLast? = some comma then data.dropLast else data

/-! ## The handler -/

/-- `md5`; the second form gives hexadecimal digits. -/
structure Crypto where
  md5 : Bytes → Bytes
  hex : Bytes → Bytes

/-- `self.profile` with `self.realm`. Without `nodeprep` a username is not prepared. -/
structure Profile where
  realm : Bytes
  nodeprep : Option (Bytes → Option Bytes)
  plain : Bytes → Bytes → Account Bytes

inductive Reply
  | challenge (text : Bytes)
  | success
  | failure (condition : String) (text : Option Bytes := none)
  /-- The function returns nothing. -/
  | nothing
  | raises
  deriving DecidableEq

structure Handler where
  nonce : Option Bytes := none
  step : ℕ := 0
  nonceCount : List Bytes := []
  username : Option Bytes := none
  authenticated : Bool := false

/-- What is put together from a message that passes the checks. -/
structure Gathered where
  username : Bytes
  nonce : Bytes
  cnonce : Bytes
  qop : Bytes
  realm : Bytes
  charset : Option Bytes
  digestUri : Bytes
  protocol : Bytes
  domain : Bytes
  password : Bytes
  authzid : Option Bytes

/-- `username` and `self.username` -/
def prepared (p : Profile) (response : Directives) : Option Bytes :=
  ((response.get (bytes "username")).bind fun username =>
    match p.nodeprep with
    | some nodeprep => nodeprep username
    | none => some username).filter (· ≠ [])

/-- The checks of the nonce, the realm, the charset and the digest-uri. -/
def checked (p : Profile) (nonce : Bytes) (response : Directives) (username : Bytes) :
    Except Reply (Bytes → Option Bytes → Gathered) :=
  match response.get (bytes "nonce") with
  | none => .error (.failure "malformed-request")
  | some given =>
    if given ≠ nonce then .error (.failure "malformed-request")
    else
      match response.get (bytes "cnonce") with
      | none => .error (.failure "malformed-request"
          (some (bytes "Missing entry for cnonce in SASL message.")))
      | some cnonce =>
        let qop := (response.get (bytes "qop")).getD (bytes "auth")
        let realm := (response.get (bytes "realm")).getD []
        if realm ≠ [] ∧ realm ≠ p.realm then
          .error (.failure "not-authorized" (some (bytes "Incorrect realm value")))
        else
          let charset := response.get (bytes "charset")
          if charset ≠ none ∧ charset ≠ some (bytes "utf-8") then
            .error (.failure "incorrect-encoding" (some (bytes "The client's response uses " ++
              charset.getD [] ++ bytes " for encoding with isn't supported by sasl.lua. " ++
              bytes "Supported encodings are latin or utf-8.")))
          else
            match response.get (bytes "digest-uri") with
            | none => .error (.failure "malformed-request"
                (some (bytes "Missing entry for digest-uri in SASL message.")))
            | some uri =>
              match splitUri uri with
              | none => .error (.failure "malformed-request")
              | some (protocol, domain) => .ok fun password authzid =>
                ⟨username, nonce, cnonce, qop, realm, charset, uri, protocol, domain,
                  password, authzid⟩

/-- The account and the authorization identity. The password is that of the username as it was
sent. -/
def gather (p : Profile) (nonce : Bytes) (response : Directives) (prepared : Bytes) :
    Except Reply Gathered :=
  let username := (response.get (bytes "username")).getD []
  match checked p nonce response username with
  | .error reply => .error reply
  | .ok found =>
    match p.plain username p.realm with
    | .unknown => .error (.failure "not-authorized")
    | .disabled => .error (.failure "account-disabled")
    | .active password =>
      match response.get (bytes "authzid") with
      | none => .ok (found password none)
      | some authzid =>
        if authzid = prepared ∨ authzid = prepared ++ bytes "@" ++ p.realm then
          .ok (found password (some authzid))
        else .error (.failure "invalid-authzid")

def a1 (c : Crypto) (g : Gathered) : Bytes :=
  let y := c.md5 (g.username ++ bytes ":" ++ g.realm ++ bytes ":" ++ g.password)
  match g.authzid with
  | some authzid => y ++ bytes ":" ++ g.nonce ++ bytes ":" ++ g.cnonce ++ bytes ":" ++ authzid
  | none => y ++ bytes ":" ++ g.nonce ++ bytes ":" ++ g.cnonce

/-- `response_value`, or `rspauth` with another start of `A2`. -/
def responseValue (c : Crypto) (g : Gathered) (nc start : Bytes) : Bytes :=
  let a2 := start ++ g.protocol ++ bytes "/" ++ g.domain
  let ha1 := c.hex (c.md5 (a1 c g))
  let ha2 := c.hex (c.md5 a2)
  let kd := ha1 ++ bytes ":" ++ g.nonce ++ bytes ":" ++ nc ++ bytes ":" ++ g.cnonce ++ bytes ":" ++
    g.qop ++ bytes ":" ++ ha2
  c.hex (c.md5 kd)

/-- The reply to the second message, and whether it authenticates. -/
def compare (c : Crypto) (g : Gathered) (response : Directives) : Reply × Bool :=
  match response.get (bytes "nc") with
  | none => (.raises, false)
  | some nc =>
    if some (responseValue c g nc (bytes "AUTHENTICATE:")) = response.get (bytes "response") then
      (.challenge (serialize { rspauth := some (responseValue c g nc (bytes ":")) }), true)
    else (.failure "not-authorized" (some (bytes
      "The response provided by the client doesn't match the one we calculated.")), false)

def second (c : Crypto) (p : Profile) (h : Handler) (message : Bytes) : Reply × Handler :=
  let response := parse message
  if (response.get (bytes "nc")).any (h.nonceCount.contains ·) then
    (.failure "not-authorized", h)
  else
    match prepared p response with
    | none => (.failure "malformed-request", h)
    | some username =>
      let h := { h with username := some username }
      match gather p (h.nonce.getD []) response username with
      | .error reply => (reply, h)
      | .ok g =>
        let (reply, authenticated) := compare c g response
        (reply, { h with authenticated := h.authenticated || authenticated })

/-- `digest`; `uuid` is what `generate_uuid` gives. -/
def digest (c : Crypto) (p : Profile) (uuid : Bytes) (h : Handler) (message : Bytes) :
    Reply × Handler :=
  let h := if h.nonce = none then { h with nonce := some uuid, step := 0, nonceCount := [] } else h
  let h := { h with step := h.step + 1 }
  if h.step = 1 then
    (.challenge (serialize
      { nonce := h.nonce, qop := some (bytes "auth"), charset := some (bytes "utf-8"),
        algorithm := some (bytes "md5-sess"), realm := some p.realm }), h)
  else if h.step = 2 then second c p h message
  else if h.step = 3 then
    (if h.authenticated then .success else .failure "malformed-request", h)
  else (.nothing, h)

end Prosody.DigestMd5
