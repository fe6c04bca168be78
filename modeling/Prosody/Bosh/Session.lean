import Mathlib.Algebra.Order.Ring.Rat

/-! # BOSH sessions

One session of `plugins/mod_bosh.lua` and the HTTP requests for it. The body of a request is
parsed in one go, so that a request is handled before the next one arrives. -/

namespace Prosody.Bosh

def xmlnsBosh : String := "http://jabber.org/protocol/httpbind"

/-- `BOSH_HOLD`. -/
def boshHold : Nat := 1

structure Stanza where
  xmlns : Option String
  content : String
  deriving DecidableEq, Repr

/-- A stanza without a namespace of its own inherits the one of the body, which is removed. -/
def Stanza.clearXmlns (stanza : Stanza) : Stanza :=
  if stanza.xmlns = some xmlnsBosh then { stanza with xmlns := none } else stanza

/-! ## Requests and answers -/

/-- How the body of a request ends: with its closing tag, with text that is not XML, with a
stream error, or with XML that is restricted. -/
inductive Ending where
  | complete
  | malformed
  | streamError
  | restricted
  deriving DecidableEq, Repr

/-- A request with the `sid` of the session. Its `rid` is absent if it is not a number, and the
payload consists of the stanzas before the ending. -/
structure Request where
  id : Nat
  rid : Option ℚ
  terminate : Bool
  payload : List Stanza
  ending : Ending
  deriving DecidableEq

/-- An HTTP response that is still open, with the `rid` of its request. -/
structure Response where
  id : Nat
  rid : ℚ
  deriving DecidableEq

/-- A body sent to the client. -/
structure Reply where
  terminate : Bool
  creating : Bool
  body : String
  deriving DecidableEq, Repr

inductive Answer where
  | reply (reply : Reply)
  | itemNotFound
  | badRequest
  | closed (condition : Option String)
  deriving DecidableEq, Repr

/-- `session.bosh_deferred`. -/
structure Deferred where
  rid : ℚ
  terminate : Bool
  response : Response
  stanzas : List Stanza
  deriving DecidableEq

/-- A session. The last three fields record what became of it: whether it has been removed
from the table of sessions, the stanzas handed to its dispatcher and the answered requests. -/
structure Session where
  rid : ℚ
  deferred : Option Deferred
  requests : List Response
  sendBuffer : List String
  responses : List (ℚ × Reply)
  processing : Bool
  terminate : Bool
  notopen : Bool
  creating : Bool
  closed : Bool
  dispatched : List Stanza
  answers : List (Nat × Answer)
  deriving DecidableEq

/-- The session created for a request with the given `rid`, before the request is handled. -/
def Session.new (rid : ℚ) : Session :=
  { rid := rid - 1
    deferred := none
    requests := []
    sendBuffer := []
    responses := []
    processing := false
    terminate := false
    notopen := true
    creating := true
    closed := false
    dispatched := []
    answers := [] }

/-- The filters of the session, the features offered to it, and what the server sends to it
while a stanza is dispatched. -/
structure Environment where
  stanzasIn : Stanza → Option Stanza
  stanzasOut : String → Option String
  features : String
  replies : Stanza → List String

/-! ## Sending -/

/-- The cache of sent responses, the most recent first. -/
def cacheSet (responses : List (ℚ × Reply)) (rid : ℚ) (reply : Reply) : List (ℚ × Reply) :=
  ((rid, reply) :: responses.filter fun entry => entry.1 ≠ rid).take (boshHold + 1)

def cacheGet (responses : List (ℚ × Reply)) (rid : ℚ) : Option Reply :=
  (responses.find? fun entry => entry.1 = rid).map Prod.snd

/-- Answering a request, which is then no longer open. -/
def Session.answer (s : Session) (id : Nat) (answer : Answer) : Session :=
  { s with
    requests := s.requests.filter fun r => r.id ≠ id
    answers := s.answers ++ [(id, answer)] }

/-- `session.send`. -/
def Session.send (env : Environment) (s : Session) (text : String) : Session :=
  match env.stanzasOut text with
  | none => s
  | some text =>
    let s := { s with sendBuffer := s.sendBuffer ++ [text] }
    match s.requests with
    | oldest :: _ =>
      if s.processing then s
      else
        let reply : Reply :=
          { terminate := s.terminate
            creating := s.creating
            body := String.join s.sendBuffer }
        { s.answer oldest.id (.reply reply) with
          creating := false
          responses := cacheSet s.responses oldest.rid reply
          sendBuffer := [] }
    | [] => s

/-- `session:close`. -/
def Session.close (s : Session) (condition : Option String) : Session :=
  { s with
    requests := []
    answers := s.answers ++ s.requests.map fun r => (r.id, .closed condition)
    closed := true }

/-! ## The callbacks of the body parser -/

/-- What the parser callbacks of one request share. -/
structure Context where
  ignore : Bool
  defer : Bool
  deriving DecidableEq

/-- `streamopened` for a request with a numeric `rid`. -/
def Session.streamopened (env : Environment) (s : Session) (q : Request) (rid : ℚ) :
    Session × Context :=
  let diff := rid - s.rid
  let response : Response := { id := q.id, rid := rid }
  if diff ≠ 1 then
    if diff = 2 then
      ({ s with
          deferred := some
            { rid := rid, terminate := q.terminate, response := response, stanzas := [] } },
        { ignore := false, defer := true })
    else
      let context : Context := { ignore := true, defer := false }
      match cacheGet s.responses rid with
      | some reply => (s.answer q.id (.reply reply), context)
      | none =>
        if diff = 0 then ({ s with requests := s.requests ++ [response] }, context)
        else (s.answer q.id .itemNotFound, context)
  else
    let s :=
      { s with
        rid := rid
        terminate := s.terminate || q.terminate
        requests := s.requests ++ [response]
        processing := true }
    let s := if s.notopen then { s.send env env.features with notopen := false } else s
    (s, { ignore := false, defer := false })

/-- Handing a stanza to the dispatcher, and what is sent meanwhile. -/
def Session.dispatch (env : Environment) (s : Session) (stanza : Stanza) : Session :=
  match env.stanzasIn stanza with
  | none => s
  | some stanza =>
    (env.replies stanza).foldl (Session.send env)
      { s with dispatched := s.dispatched ++ [stanza] }

/-- `handlestanza`. -/
def Session.handlestanza (env : Environment) (context : Context) (s : Session)
    (stanza : Stanza) : Session :=
  if context.ignore then s
  else
    match context.defer, s.deferred with
    | true, some deferred =>
      { s with
        deferred := some
          { deferred with stanzas := deferred.stanzas ++ [stanza.clearXmlns] } }
    | _, _ => s.dispatch env stanza.clearXmlns

/-- `streamclosed`. -/
def Session.streamclosed (env : Environment) (context : Context) (s : Session) : Session :=
  let s :=
    match context.defer, s.deferred with
    | false, some deferred =>
      let s :=
        { s with
          deferred := none
          rid := deferred.rid
          requests := s.requests ++ [deferred.response] }
      let s := deferred.stanzas.foldl
        (Session.handlestanza env { ignore := false, defer := true }) s
      { s with terminate := s.terminate || deferred.terminate }
    | _, _ => s
  let s := { s with processing := false }
  if s.sendBuffer ≠ [] then s.send env "" else s

/-! ## Requests -/

/-- What `handle_POST` does after a body that could be parsed. -/
def Session.respond (env : Environment) (s : Session) : Session :=
  let s :=
    if s.requests.length > boshHold then
      if s.sendBuffer ≠ [] then
        { s.send env (String.join s.sendBuffer) with sendBuffer := [] }
      else s.send env ""
    else if s.sendBuffer ≠ [] then
      { s with sendBuffer := [] }.send env (String.join s.sendBuffer)
    else s
  if s.terminate then s.close none else s

/-- The rest of a request after its last complete stanza. -/
def Session.finish (env : Environment) (context : Context) (s : Session) (q : Request) :
    Session :=
  match q.ending with
  | .complete => (s.streamclosed env context).respond env
  | .malformed => s.answer q.id .badRequest
  | .streamError =>
    let s := s.close none
    if s.answers.any fun entry => entry.1 = q.id then s else s.answer q.id .itemNotFound
  | .restricted =>
    let s := s.close (some "bad-format")
    if s.answers.any fun entry => entry.1 = q.id then s else s.answer q.id .badRequest

/-- `handle_POST`. A `rid` that is not a number raises an error before anything is changed. -/
def Session.handlePOST (env : Environment) (s : Session) (q : Request) : Session :=
  if s.closed then s.answer q.id .itemNotFound
  else
    match q.rid with
    | none => s
    | some rid =>
      let (s, context) := s.streamopened env q rid
      (q.payload.foldl (Session.handlestanza env context) s).finish env context q

/-! ## Operations -/

/-- What can happen to a session: a request for it, a stanza sent to its client, an open
request that goes away, the end of the waiting time, and its end for another reason. -/
inductive Op where
  | request (q : Request)
  | send (text : String)
  | destroyRequest (id : Nat)
  | wait
  | close (condition : Option String)
  deriving DecidableEq

def Session.step (env : Environment) (s : Session) : Op → Session
  | .request q => s.handlePOST env q
  | .send text => if s.closed then s else s.send env text
  | .destroyRequest id =>
    { s with requests := s.requests.filter fun r => r.id ≠ id }
  | .wait => if s.closed then s else s.send env ""
  | .close condition => if s.closed then s else s.close condition

end Prosody.Bosh
