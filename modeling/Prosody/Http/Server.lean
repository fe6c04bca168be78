import Prosody.Library.Runs
import Prosody.Library.Table

/-! # Requests and responses of an HTTP server

One connection of `net/http/server.lua` on top of `net/server_epoll.lua`. Strings are strings of
bytes, and responses are numbered by the requests that they belong to, in the order in which the
parser found these. -/

namespace Prosody.Http.Server

structure Request where
  method : String
  /-- Nothing if the path leads out of the root. -/
  path : Option String
  httpversion : String
  headers : Table String String

/-- `string.find(s, pattern, 1, true)` -/
def find (s pattern : String) : Bool := pattern.toList <:+: s.toList

def Request.connHeader (request : Request) : String :=
  match request.headers.get "connection" with
  | some value =>
    "," ++ (String.ofList (value.toList.filter fun c => c ≠ ' ' ∧ c ≠ '\t')).toLower ++ ","
  | none => ""

def Request.persistent (request : Request) : Bool :=
  find request.connHeader ",keep-alive," ||
    (request.httpversion = "1.1" && !find request.connHeader ",close,")

def Request.responseConnHeader (request : Request) : Option String :=
  if request.persistent then some "Keep-Alive"
  else if request.httpversion = "1.1" then some "close"
  else none

/-- `(request.headers.host or ""):match("[^:]+")` -/
def Request.host (request : Request) : Option String :=
  let name := (((request.headers.get "host").getD "").toList.dropWhile (· = ':')).takeWhile (· ≠ ':')
  if name = [] then none else some (String.ofList name)

/-- `request.path:match("[^?]*")` -/
def barePath (path : String) : String := String.ofList (path.toList.takeWhile (· ≠ '?'))

/-- What the handlers of a request may change in its response. -/
structure Content where
  status : Option String
  statusCode : ℕ
  headers : Table String String
  body : Option String

abbrev File := List String

structure Stream where
  chunked : Bool
  rest : File

inductive Answer where
  | whole (text : String)
  | file (header : String) (chunked : Bool) (blocks : File)

structure Response where
  request : Request
  content : Content
  persistent : Bool
  finished : Bool
  /-- `_send_more` -/
  sendMore : Option Stream
  answer : Option Answer

inductive Link where
  | open
  /-- Closed after writing. -/
  | closing
  | gone
  deriving DecidableEq

structure Conn where
  link : Link
  /-- The write buffer is not empty. -/
  buffered : Bool
  written : String
  /-- `sessions[conn]` has a parser. -/
  session : Bool
  pending : List (ℕ × Request)
  waiting : Bool
  incomplete : Option ℕ
  parsed : ℕ
  responses : Table ℕ Response

/-- `listener.onconnect` -/
def start : Conn where
  link := .open
  buffered := false
  written := ""
  session := true
  pending := []
  waiting := false
  incomplete := none
  parsed := 0
  responses := ∅

/-- What results from an event that was fired for a request. -/
inductive Result where
  | number (n : ℕ)
  | string (s : String)
  | table (f : Content → Content)
  /-- `false` -/
  | no

inductive Reaction where
  | unhandled
  | result (r : Result)
  /-- The result is `true`, and the answer may come later. -/
  | later
  | send (f : Content → Content) (body : Option String)
  | sendFile (f : Content → Content) (file : File)
  | raise

/-- What the server finds around it at some time. -/
structure Env where
  date : String
  order : KeyOrder String
  codes : ℕ → String
  hosts : String → Bool
  defaultHost : Option String
  /-- The event `http-error`. -/
  httpError : ℕ → Content → Content × Option String

/-! ## The connection -/

def ondisconnect (c : Conn) : Conn := { c with incomplete := none, session := false }

def write (c : Conn) (data : String) : Conn :=
  if c.link = .open then { c with written := c.written ++ data, buffered := true } else c

def close (c : Conn) : Conn :=
  if c.link = .gone then c
  else if c.buffered then { c with link := .closing }
  else { ondisconnect c with link := .gone }

/-! ## Responses -/

/-- Every letter or digit after a character that is neither is made upper case. -/
def capitalize : Bool → List Char → List Char
  | _, [] => []
  | word, c :: cs => (if word then c else c.toUpper) :: capitalize c.isAlphanum cs

def headerfix (k : String) : String :=
  "\r\n" ++ String.ofList (capitalize false (k.toList.map fun c => if c = '_' then '-' else c)) ++ ": "

def prepareHeader (env : Env) (request : Request) (content : Content) : String :=
  "HTTP/" ++ request.httpversion ++ " " ++ content.status.getD (env.codes content.statusCode) ++
    String.join ((env.order.keys content.headers.keys).map fun k =>
      headerfix k ++ (content.headers.get k).getD "") ++ "\r\n\r\n"

def putResponse (c : Conn) (n : ℕ) (r : Response) : Conn :=
  { c with responses := c.responses.set n (some r) }

def finishResponse (finishCb : Conn → Conn) (c : Conn) (n : ℕ) (r : Response) : Conn :=
  if r.finished then c
  else
    let c := putResponse c n { r with finished := true }
    if r.persistent then finishCb c else close c

def sendResponse (env : Env) (finishCb : Conn → Conn) (c : Conn) (n : ℕ) (r : Response)
    (body : Option String) : Conn :=
  if r.finished then c
  else
    let body := body.getD (r.content.body.getD "")
    let content := { r.content with
      headers := r.content.headers.set "content_length" (some (toString body.length)) }
    let text := prepareHeader env r.request content ++ body
    let r := { r with content := content, answer := some (.whole text) }
    finishResponse finishCb (write (putResponse c n r) text) n r

/-- `("%x\r\n%s\r\n"):format(#chunk, chunk)` -/
def chunkText (chunk : String) : String :=
  String.ofList (Nat.toDigits 16 chunk.length) ++ "\r\n" ++ chunk ++ "\r\n"

def sendFile (env : Env) (c : Conn) (n : ℕ) (r : Response) (file : File) : Conn :=
  if r.finished then c
  else
    let chunked := (r.content.headers.get "content_length").isNone
    let content := if chunked then { r.content with
      headers := r.content.headers.set "transfer_encoding" (some "chunked") } else r.content
    let header := prepareHeader env r.request content
    let r := { r with
      content := content
      sendMore := some ⟨chunked, file⟩
      answer := some (.file header chunked file) }
    write { putResponse c n r with incomplete := some n } header

def sendMore (finishCb : Conn → Conn) (c : Conn) (n : ℕ) (r : Response) (stream : Stream) : Conn :=
  if r.finished then { c with incomplete := none }
  else match stream.rest with
    | chunk :: rest =>
      let r := { r with sendMore := some ⟨stream.chunked, rest⟩ }
      write (putResponse c n r) (if stream.chunked then chunkText chunk else chunk)
    | [] =>
      let c := if stream.chunked then write c "0\r\n\r\n" else c
      finishResponse finishCb { c with incomplete := none } n r

def ondrain (finishCb : Conn → Conn) (c : Conn) : Conn :=
  match c.incomplete with
  | none => c
  | some n =>
    match c.responses.get n with
    | none => c
    | some r =>
      match r.sendMore with
      | none => c
      | some stream => sendMore finishCb c n r stream

/-! ## Requests -/

def newResponse (env : Env) (request : Request) : Response where
  request := request
  content := {
    status := none
    statusCode := 200
    headers := ((∅ : Table String String).set "date" (some env.date)).set "connection"
      request.responseConnHeader
    body := none }
  persistent := request.persistent
  finished := false
  sendMore := none
  answer := none

def sendError (env : Env) (finishCb : Conn → Conn) (c : Conn) (n : ℕ) (r : Response) (code : ℕ) :
    Conn :=
  let page := env.httpError code { r.content with statusCode := code }
  sendResponse env finishCb c n { r with content := page.1 } page.2

/-- What becomes of the result of an event other than nothing and `true`. -/
def sendResult (env : Env) (finishCb : Conn → Conn) (c : Conn) (n : ℕ) (r : Response) :
    Result → Conn
  | .number code =>
    if 400 ≤ code then sendError env finishCb c n r code
    else sendResponse env finishCb c n { r with content := { r.content with statusCode := code } }
      none
  | .string body => sendResponse env finishCb c n r (some body)
  | .table f => sendResponse env finishCb c n { r with content := f r.content } none
  | .no => sendResponse env finishCb c n r none

/-- What follows a handled event, and whether no error was raised. -/
def conclude (env : Env) (finishCb : Conn → Conn) (c : Conn) (n : ℕ) (r : Response) :
    Reaction → Conn × Bool
  | .unhandled => (sendError env finishCb c n r 404, true)
  | .result result => (sendResult env finishCb c n r result, true)
  | .later => (c, true)
  | .send f body => (sendResponse env finishCb c n { r with content := f r.content } body, true)
  | .sendFile f file => (sendFile env c n { r with content := f r.content } file, true)
  | .raise => (c, false)

def resolveHost (env : Env) (host : Option String) : Except ℕ String :=
  match host with
  | some host =>
    if env.hosts host then .ok host
    else match env.defaultHost.filter env.hosts with
      | some default => .ok default
      | none => .error 404
  | none =>
    match env.defaultHost.filter env.hosts with
    | some default => .ok default
    | none => .error 400

def handleRequest (env : Env) (react : String → Reaction) (finishCb : Conn → Conn) (c : Conn)
    (n : ℕ) (request : Request) : Conn × Bool :=
  let r := newResponse env request
  let c := putResponse c n r
  match request.path with
  | none => (sendError env finishCb c n r 400, true)
  | some path =>
    match react (request.method ++ " " ++ barePath path) with
    | .unhandled =>
      match resolveHost env request.host with
      | .error code => (sendError env finishCb c n r code, true)
      | .ok host =>
        conclude env finishCb c n r (react (request.method ++ " " ++ host ++ barePath path))
    | reaction => conclude env finishCb c n r reaction

/-- What is written when handling a request raises an error. -/
def failText (env : Env) (content : Content) : String :=
  "HTTP/1.0 500 Internal Server Error\r\n\r\n" ++ ((env.httpError 500 content).2.getD "")

/-- One round of the loop of `process_next`. -/
def processOne (env : Env) (react : String → Reaction) (finishCb : Conn → Conn) (c : Conn)
    (n : ℕ) (request : Request) : Conn :=
  let (c, ok) := handleRequest env react finishCb c n request
  if ok then c
  else
    let r := newResponse env request
    let text := failText env r.content
    close (write (putResponse c n { r with answer := some (.whole text) }) text)

def processLoop (env : Env) (react : String → Reaction) (finishCb : Conn → Conn) : ℕ → Conn → Conn
  | 0, c => c
  | fuel + 1, c =>
    match c.session, c.pending.getLast? with
    | true, some (n, request) =>
      processLoop env react finishCb fuel
        (processOne env react finishCb { c with pending := c.pending.dropLast } n request)
    | _, _ => c

/-- The loop of a connection, where `depth` bounds how deep it calls itself. -/
def processNext (env : Env) (react : String → Reaction) : ℕ → Conn → Conn
  | 0, c => c
  | depth + 1, c =>
    if c.waiting then c
    else
      let c := { c with waiting := true }
      let c := processLoop env react (processNext env react depth) c.pending.length c
      { c with waiting := false }

/-- A request has been parsed; nothing stands for the failed assertion. -/
def successCb (env : Env) (react : String → Reaction) (c : Conn) (request : Request) :
    Option Conn :=
  if c.waiting then none
  else some (processNext env react 2
    { c with pending := c.pending ++ [(c.parsed, request)], parsed := c.parsed + 1 })

def errorCb (c : Conn) : Conn := close { c with session := false }

/-! ## Runs -/

inductive Event where
  | parsed (request : Request) (env : Env) (react : String → Reaction)
  | malformed
  /-- The handler that has the response calls `response:send`. -/
  | answer (n : ℕ) (env : Env) (react : String → Reaction) (f : Content → Content)
      (body : Option String)
  /-- The handler that has the response calls `response:send_file`. -/
  | answerFile (n : ℕ) (env : Env) (f : Content → Content) (file : File)
  | drained (env : Env) (react : String → Reaction)
  | disconnected

/-- A response that its handler has yet to answer. -/
def owed (c : Conn) (n : ℕ) : Option Response := (c.responses.get n).filter (·.answer.isNone)

def step (c : Conn) : Event → Conn
  | .parsed request env react => (successCb env react c request).getD c
  | .malformed => errorCb c
  | .answer n env react f body =>
    match owed c n with
    | none => c
    | some r =>
      sendResponse env (processNext env react 2) c n { r with content := f r.content } body
  | .answerFile n env f file =>
    match owed c n with
    | none => c
    | some r => sendFile env c n { r with content := f r.content } file
  | .drained env react =>
    if c.buffered then
      let c := { c with buffered := false }
      match c.link with
      | .open => ondrain (processNext env react 2) c
      | .closing => close c
      | .gone => c
    else c
  | .disconnected => if c.link = .gone then c else { ondisconnect c with link := .gone }

/-! ## The order of the responses -/

def Answer.text : Answer → String
  | .whole text => text
  | .file header chunked blocks =>
    header ++ String.join (blocks.map fun b => if chunked then chunkText b else b) ++
      if chunked then "0\r\n\r\n" else ""

def Conn.text (c : Conn) (n : ℕ) : String :=
  (((c.responses.get n).bind Response.answer).map Answer.text).getD ""

def Conn.answered (c : Conn) (n : ℕ) : Prop :=
  ∃ r, c.responses.get n = some r ∧ r.answer.isSome

/-- The responses are written in the order of their requests, each to its end before the next
begins, and nothing follows that to a request that is not persistent. -/
def InOrder (c : Conn) : Prop :=
  ∃ k part rest, c.written = String.join ((List.range k).map c.text) ++ part ∧
    part ++ rest = c.text k ∧
    ∀ i < k, c.answered i ∧
      ((∃ r, c.responses.get i = some r ∧ r.request.persistent = true) ∨ (i + 1 = k ∧ part = ""))

end Prosody.Http.Server
