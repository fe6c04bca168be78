import Prosody.Library.Hexadecimal
import Prosody.Library.Table

/-! # The parser of HTTP messages

The parser of `net/http/parser.lua` in both of its modes. What is used of Lua and of LuaSocket
beyond patterns and `string.sub` is a parameter. -/

namespace Prosody.Httpstream

abbrev Bytes := List Char

def crlf : Bytes := ['\r', '\n']

def crlfcrlf : Bytes := ['\r', '\n', '\r', '\n']

/-- A number of Lua by how it compares with integers. -/
inductive Num where
  | int (n : ℤ)
  /-- Strictly between `below` and the next integer. -/
  | frac (below : ℤ)
  | nan
  | infinite (positive : Bool)
deriving DecidableEq

/-- `x <= n` -/
def Num.le : Num → ℕ → Bool
  | .int x, n => x ≤ n
  | .frac below, n => below < n
  | .nan, _ => false
  | .infinite positive, _ => !positive

/-- `x > n` -/
def Num.exceeds : Num → ℕ → Bool
  | .int x, n => n < x
  | .frac below, n => n ≤ below
  | .nan, _ => false
  | .infinite positive, _ => positive

/-- What functions on strings take a number for; for any but an integer they raise an error. -/
def Num.index : Num → Option ℤ
  | .int n => some n
  | _ => none

structure Url where
  path : Option Bytes
  query : Option Bytes
  host : Option Bytes

structure Lua where
  tonumber : Bytes → Option Num
  /-- `parse` of `socket.url` -/
  urlParse : Bytes → Option Url

structure Options where
  client : Bool
  method : Option Bytes
  bodylimit : ℕ
  buflimit : ℕ

def clientOptions (o : Options) : Options := { o with client := true }

/-! ## Strings -/

/-- `s:find(pattern, nil, true)`, counted from 0. -/
def indexOf (pattern : Bytes) : Bytes → Option ℕ
  | [] => if pattern = [] then some 0 else none
  | c :: s => if pattern <+: c :: s then some 0 else (indexOf pattern s).map (· + 1)

/-- `s:sub(1, n)` -/
def upto (s : Bytes) (n : ℤ) : Bytes :=
  if 0 ≤ n then s.take n.toNat else s.take (s.length + n + 1).toNat

/-- `s:sub(n + 1)` -/
def after (s : Bytes) (n : ℤ) : Bytes :=
  if 0 ≤ n then s.drop n.toNat else if n = -1 then s else s.drop (s.length + n + 1).toNat

/-- `%s` -/
def isSpace (c : Char) : Bool := c = ' ' || ('\t' ≤ c && c ≤ '\r')

/-- `urldecode` of `util.http` -/
def urldecode : Bytes → Bytes
  | '%' :: a :: b :: s =>
    if a.isHexDigit && b.isHexDigit then Char.ofNat (16 * Hexadecimal.value a + Hexadecimal.value b) :: urldecode s
    else '%' :: urldecode (a :: b :: s)
  | c :: s => c :: urldecode s
  | [] => []

/-- `path:gsub("//+", "/")` -/
def squeeze : Bytes → Bytes
  | '/' :: '/' :: s => squeeze ('/' :: s)
  | c :: s => c :: squeeze s
  | [] => []

def components : Bytes → Bytes → List Bytes
  | _, [] => []
  | component, '/' :: s =>
    if component = [] then components [] s else component :: components [] s
  | component, c :: s => components (component ++ [c]) s

/-- How deep a path stays; nothing if it leads out of the root. -/
def descend : ℕ → List Bytes → Option ℕ
  | level, [] => some level
  | level, component :: rest =>
    if component = ['.', '.'] then
      match level with
      | 0 => none
      | level + 1 => descend level rest
    else if component = ['.'] then descend level rest
    else descend (level + 1) rest

def preprocessPath (path : Bytes) : Option Bytes :=
  let path := urldecode (squeeze path)
  let path := if path.head? = some '/' then path else '/' :: path
  (descend 0 (components [] path)).map fun _ => path

/-! ## Heads -/

inductive Reason where
  | unexpectedEof
  | maxBufferSizeExceeded
  | invalidHeaderLine
  | invalidStatusLine
  | contentLengthLimitExceeded
  | invalidUrl
  | invalidChunkSize
  deriving DecidableEq

inductive Head where
  | response (code : ℕ) (httpversion : Bytes)
  | request (method : Bytes) (url : Url) (path : Option Bytes) (httpversion : Bytes)

structure Packet where
  head : Head
  headers : Table Bytes Bytes
  body : Option Bytes

/-- `gmatch("([^\r\n]+)\r\n")`, where `line` has been read of a line. -/
def lines : Bytes → Bytes → List Bytes
  | _, [] => []
  | line, '\r' :: '\n' :: s => if line = [] then lines [] s else line :: lines [] s
  | line, c :: s => if c = '\r' || c = '\n' then lines [] s else lines (line ++ [c]) s

/-- `line:match("^([^%s:]+): *(.*)$")` -/
def headerLine (line : Bytes) : Option (Bytes × Bytes) :=
  let key := line.takeWhile fun c => !isSpace c && c ≠ ':'
  match line.drop key.length with
  | ':' :: val => if key = [] then none else some (key, val.dropWhile (· = ' '))
  | _ => none

/-- One round of the loop over the lines of a head. -/
def addHeader (headers : Table Bytes Bytes) (line : Bytes) : Except Reason (Table Bytes Bytes) :=
  match headerLine line with
  | none => .error .invalidHeaderLine
  | some (key, val) =>
    let key := key.map Char.toLower
    .ok (headers.set key (some (match headers.get key with
      | some old => old ++ ',' :: val
      | none => val)))

/-- `line:match("^HTTP/(1%.[01]) (%d%d%d) (.*)$")` -/
def statusLine : Bytes → Option (Bytes × ℕ)
  | 'H' :: 'T' :: 'T' :: 'P' :: '/' :: '1' :: '.' :: v :: ' ' :: a :: b :: c :: ' ' :: _ =>
    if (v = '0' ∨ v = '1') ∧ a.isDigit ∧ b.isDigit ∧ c.isDigit then
      some (['1', '.', v], 100 * Hexadecimal.value a + 10 * Hexadecimal.value b + Hexadecimal.value c)
    else none
  | _ => none

/-- `line:match("^(%w+) (%S+) HTTP/(1%.[01])$")` -/
def requestLine (line : Bytes) : Option (Bytes × Bytes × Bytes) :=
  let method := line.takeWhile Char.isAlphanum
  match line.drop method.length with
  | ' ' :: rest =>
    let path := rest.takeWhile fun c => !isSpace c
    match rest.drop path.length with
    | [' ', 'H', 'T', 'T', 'P', '/', '1', '.', v] =>
      if method ≠ [] ∧ path ≠ [] ∧ (v = '0' ∨ v = '1') then some (method, path, ['1', '.', v])
      else none
    | _ => none
  | _ => none

def haveBody (o : Options) (code : ℕ) : Bool :=
  !(o.method = some ['H', 'E', 'A', 'D'] || code = 204 || code = 304 || code = 301 ||
    (100 ≤ code && code < 200))

/-- `path:match("([^?]*).?(.*)")` -/
def splitPath (path : Bytes) : Url where
  path := some (path.takeWhile (· ≠ '?'))
  query :=
    let query := (path.dropWhile (· ≠ '?')).tail
    if query = [] then none else some query
  host := none

/-- What is known when a head has been read. -/
structure Start where
  packet : Packet
  chunked : Bool
  len : Option Num

/-- The headers and `len`. -/
def parseHeaders (L : Lua) (o : Options) (rest : List Bytes) :
    Except Reason (Table Bytes Bytes × Option Num) := do
  let headers ← rest.foldlM addHeader ∅
  let len := (headers.get "content-length".toList).bind L.tonumber
  if len.any (·.exceeds o.bodylimit) then throw .contentLengthLimitExceeded
  return (headers, len)

def parseResponse (L : Lua) (o : Options) (line : Bytes) (rest : List Bytes) :
    Except Reason Start :=
  match statusLine line with
  | none => .error .invalidStatusLine
  | some (httpversion, code) =>
    (parseHeaders L o rest).map fun (headers, len) =>
      { packet := ⟨.response code httpversion, headers, if haveBody o code then some [] else none⟩
        chunked := haveBody o code && headers.get "transfer-encoding".toList = some "chunked".toList
        len := if haveBody o code then len else some (.int 0) }

/-- `parsed_url` -/
def parseUrl (L : Lua) (path : Bytes) : Except Reason Url :=
  if path.head? = some '/' then .ok (splitPath path)
  else match L.urlParse path with
    | none => .error .invalidUrl
    | some url => if url.path.isNone then .error .invalidUrl else .ok url

def requestStart (method path httpversion : Bytes) (url : Url) (headers : Table Bytes Bytes)
    (len : Option Num) : Start where
  packet := {
    head := .request method url (preprocessPath (url.path.getD path)) httpversion
    headers := headers.set "host".toList (url.host.orElse fun _ => headers.get "host".toList)
    body := none }
  chunked := false
  len := some (len.getD (.int 0))

def parseRequest (L : Lua) (o : Options) (line : Bytes) (rest : List Bytes) :
    Except Reason Start :=
  match requestLine line with
  | none => .error .invalidStatusLine
  | some (method, path, httpversion) =>
    (parseHeaders L o rest).bind fun (headers, len) =>
      (parseUrl L path).map fun url => requestStart method path httpversion url headers len

def parseHead (L : Lua) (o : Options) (head : Bytes) : Except Reason Start :=
  match lines [] head with
  | [] => .error .invalidStatusLine
  | line :: rest => if o.client then parseResponse L o line rest else parseRequest L o line rest

/-! ## The parser -/

/-- `buf` is a table while `buftable` is true. -/
inductive Buffer where
  | table (parts : List Bytes)
  | string (s : Bytes)

/-- `if buftable then buf, buftable = t_concat(buf), false; end` -/
def Buffer.concat : Buffer → Bytes
  | .table parts => parts.flatten
  | .string s => s

def Buffer.insert : Buffer → Bytes → Buffer
  | .table parts, data => .table (parts ++ [data])
  | .string s, data => .table [s, data]

structure Parser where
  buf : Buffer
  buflen : ℕ
  /-- `packet`, while `state` is true. -/
  state : Option Packet
  chunked : Bool
  chunkSize : Option ℕ
  chunkStart : Option ℕ
  len : Option Num
  error : Bool

def new : Parser where
  buf := .table []
  buflen := 0
  state := none
  chunked := false
  chunkSize := none
  chunkStart := none
  len := none
  error := false

inductive Call where
  | success (packet : Packet)
  | failure (reason : Reason)

/-- How one round of the loop ends. -/
inductive Turn where
  /-- The function returns, or the loop ends. -/
  | stop (p : Parser)
  | next (p : Parser)
  | call (p : Parser) (c : Call)
  /-- An error is raised. -/
  | raise (p : Parser)

def fail (p : Parser) (reason : Reason) : Turn := .call { p with error := true } (.failure reason)

/-- `buf:match("^(%x+)[^\r\n]*\r\n()")` -/
def chunkHeader (buf : Bytes) : Option (ℕ × ℕ) :=
  let digits := buf.takeWhile Char.isHexDigit
  let extension := (buf.drop digits.length).takeWhile fun c => c ≠ '\r' && c ≠ '\n'
  let rest := buf.drop (digits.length + extension.length)
  if digits ≠ [] ∧ crlf <+: rest then
    some (Hexadecimal.number digits, digits.length + extension.length + 3)
  else none

/-- `buf:gsub("^.-\r\n\r\n", "")` -/
def stripTrailers (buf : Bytes) : Bytes :=
  match indexOf crlfcrlf buf with
  | some i => buf.drop (i + 4)
  | none => buf

/-- What follows once the header of a chunk is known. -/
def takeChunk (p : Parser) (packet : Packet) (buf : Bytes) (size start : ℕ) : Turn :=
  let p := { p with buf := .string buf, chunkSize := some size, chunkStart := some start }
  if size = 0 ∧ (indexOf crlfcrlf (buf.drop (start - 3))).isSome then
    -- `chunk_start` and `buflen` are left as they are.
    .call { p with state := none, chunkSize := none, buf := .string (stripTrailers buf) }
      (.success packet)
  else if start + 2 + size ≤ p.buflen then
    let body := packet.body.getD [] ++ (buf.drop (start - 1)).take size
    .next { p with
      state := some { packet with body := some body }
      buf := .string (buf.drop (start + size + 1))
      buflen := p.buflen - (start + size + 1)
      chunkSize := none
      chunkStart := none }
  else .stop p

def readChunk (p : Parser) (packet : Packet) : Turn :=
  let buf := p.buf.concat
  let p := { p with buf := .string buf }
  if (indexOf crlf buf).isNone then .stop p
  else match p.chunkSize with
    | some size =>
      match p.chunkStart with
      | some start => takeChunk p packet buf size start
      | none => .raise p
    | none =>
      match chunkHeader buf with
      | none => fail p .invalidChunkSize
      | some (size, start) => takeChunk p packet buf size start

def readChunked (p : Parser) (packet : Packet) : Turn :=
  match p.chunkStart with
  | none => readChunk p packet
  | some start =>
    match p.chunkSize with
    | none => .raise p
    | some size => if p.buflen < start + 2 + size then .stop p else readChunk p packet

/-- The body has been read whose length is known. -/
def takeBody (p : Parser) (packet : Packet) (len : Num) : Turn :=
  let buf := p.buf.concat
  match len.index with
  | none => .raise { p with buf := .string buf }
  | some n =>
    .call { p with state := none, buf := .string (after buf n), buflen := (after buf n).length }
      (.success { packet with body := some (upto buf n) })

def Head.code : Head → Option ℕ
  | .response code _ => some code
  | .request _ _ _ _ => none

def readBody (o : Options) (p : Parser) (packet : Packet) : Turn :=
  if o.client && p.chunked then readChunked p packet
  else match p.len with
    | none => .stop p
    | some len =>
      if len.le p.buflen then
        if o.client && packet.head.code = some 101 then
          .call { p with state := none, buf := .table [], buflen := 0 }
            (.success { packet with body := some p.buf.concat })
        else takeBody p packet len
      else .stop p

def turn (L : Lua) (o : Options) (p : Parser) : Turn :=
  match p.state with
  | some packet => readBody o p packet
  | none =>
    let buf := p.buf.concat
    let p := { p with buf := .string buf }
    match indexOf crlfcrlf buf with
    | none => .stop p
    | some i =>
      match parseHead L o (buf.take (i + 2)) with
      | .error reason => fail p reason
      | .ok start =>
        readBody o { p with
          buf := .string (buf.drop (i + 4))
          buflen := (buf.drop (i + 4)).length
          state := some start.packet
          chunked := start.chunked
          len := start.len } start.packet

/-! ## Feeding -/

section

variable {σ : Type*} (L : Lua) (o : Options) (callback : σ → Call → σ × Bool)

/-- The loop, where the callbacks change the state of their owner and may raise an error. The result
says whether one was raised; there is none if the fuel does not suffice. -/
def loop : ℕ → Parser → σ → Option (Parser × σ × Bool)
  | 0, _, _ => none
  | fuel + 1, p, s =>
    if p.buflen = 0 then some (p, s, false)
    else match turn L o p with
      | .stop p => some (p, s, false)
      | .raise p => some (p, s, true)
      | .next p => loop fuel p s
      | .call p c =>
        let (s, raised) := callback s c
        if raised then some (p, s, true)
        else match c with
          | .success _ => loop fuel p s
          | .failure _ => some (p, s, false)

/-- `fail` outside of the loop. -/
def callFailure (p : Parser) (s : σ) (reason : Reason) : Parser × σ × Bool :=
  ({ p with error := true }, callback s (.failure reason))

def insert (p : Parser) (data : Bytes) : Parser :=
  { p with buf := p.buf.insert data, buflen := p.buflen + data.length }

/-- Enough rounds for what is in the buffer. -/
def fuel (p : Parser) : ℕ := 2 * p.buf.concat.length + 2

def feed (p : Parser) (s : σ) (data : Bytes) : Option (Parser × σ × Bool) :=
  if p.error then some (p, s, false)
  else
    let p := insert p data
    if o.buflimit < p.buflen then some (callFailure callback p s .maxBufferSizeExceeded)
    else loop L o callback (fuel p) p s

/-- `feed` without data, at the end of the stream. -/
def feedEof (p : Parser) (s : σ) : Parser × σ × Bool :=
  if p.error then (p, s, false)
  else
    let buf := p.buf.concat
    let p := { p with buf := .string buf }
    match p.state with
    | some packet =>
      if o.client && p.len.isNone then
        (p, callback s (.success { packet with body := some buf }))
      else if buf ≠ [] then callFailure callback p s .unexpectedEof
      else (p, s, false)
    | none => if buf ≠ [] then callFailure callback p s .unexpectedEof else (p, s, false)

end

end Prosody.Httpstream
