import Prosody.Http.Feeding

/-! # Well-formed responses

Responses as they are sent, with what the parser reads of their parts. -/

namespace Prosody.Httpstream

/-! ## Lines -/

structure IsLine (l : Bytes) : Prop where
  ne_nil : l ≠ []
  plain : ∀ c ∈ l, c ≠ '\r' ∧ c ≠ '\n'

def linesText (ls : List Bytes) : Bytes := (ls.map (· ++ crlf)).flatten

@[simp] theorem linesText_cons (l : Bytes) (ls : List Bytes) :
    linesText (l :: ls) = l ++ (crlf ++ linesText ls) := by
  simp [linesText]

theorem indexOf_cons_of_ne {pattern s : Bytes} {a c : Char} (h : c ≠ a) :
    indexOf (a :: pattern) (c :: s) = (indexOf (a :: pattern) s).map (· + 1) := by
  rw [indexOf, if_neg]
  rintro ⟨t, ht⟩
  rw [List.cons_append] at ht
  exact h (List.cons.inj ht).1.symm

variable {l : Bytes}

theorem indexOf_append_of_not_mem {pattern : Bytes} {a : Char} (h : ∀ c ∈ l, c ≠ a)
    (s : Bytes) : indexOf (a :: pattern) (l ++ s) =
      (indexOf (a :: pattern) s).map (· + l.length) := by
  induction l with
  | nil => simp
  | cons c l ih =>
    rw [List.cons_append, indexOf_cons_of_ne (h c List.mem_cons_self),
      ih fun c' hc' => h c' (List.mem_cons_of_mem _ hc'), Option.map_map]
    rfl

theorem indexOf_crlf (h : IsLine l) (s : Bytes) :
    indexOf crlf (l ++ (crlf ++ s)) = some l.length := by
  have hzero : indexOf crlf (crlf ++ s) = some 0 := by
    rw [indexOf_eq_some_iff]
    exact ⟨Nat.zero_le _, List.prefix_append _ _, fun j hj => absurd hj (Nat.not_lt_zero j)⟩
  rw [crlf, indexOf_append_of_not_mem fun c hc => (h.plain c hc).1]
  change (indexOf crlf (crlf ++ s)).map _ = _
  rw [hzero]
  simp

variable {ls : List Bytes}

theorem indexOf_crlf_linesText (h : ∀ l ∈ ls, IsLine l) (s : Bytes) :
    indexOf crlfcrlf (crlf ++ (linesText ls ++ (crlf ++ s))) = some (linesText ls).length := by
  induction ls with
  | nil =>
    rw [indexOf_eq_some_iff]
    exact ⟨Nat.zero_le _, ⟨s, rfl⟩, fun j hj => absurd hj (Nat.not_lt_zero j)⟩
  | cons l ls ih =>
    have hl := h l List.mem_cons_self
    obtain ⟨c, t, ht⟩ := List.exists_cons_of_ne_nil hl.ne_nil
    have hc : c ≠ '\r' := (hl.plain c (by rw [ht]; exact List.mem_cons_self)).1
    have hskip : ∀ u, indexOf crlfcrlf (crlf ++ (l ++ u)) =
        (indexOf crlfcrlf (l ++ u)).map (· + 2) := by
      intro u
      rw [ht]
      change indexOf crlfcrlf ('\r' :: '\n' :: c :: (t ++ u)) = _
      rw [indexOf, if_neg]
      · rw [crlfcrlf, indexOf_cons_of_ne (by decide), Option.map_map]
        rfl
      · rintro ⟨v, hv⟩
        simp only [crlfcrlf, List.cons_append, List.nil_append, List.cons.injEq] at hv
        exact hc hv.2.2.1.symm
    have hline : ∀ u, indexOf crlfcrlf (l ++ u) = (indexOf crlfcrlf u).map (· + l.length) :=
      indexOf_append_of_not_mem fun c' hc' => (hl.plain c' hc').1
    rw [linesText_cons, List.append_assoc, List.append_assoc, hskip, hline,
      ih fun l' h' => h l' (List.mem_cons_of_mem _ h')]
    simp only [Option.map_some, List.length_append, crlf, List.length_cons, List.length_nil]
    congr 1
    omega

theorem indexOf_linesText (hl : IsLine l) (h : ∀ l ∈ ls, IsLine l)
    (s : Bytes) : indexOf crlfcrlf (linesText (l :: ls) ++ (crlf ++ s)) =
      some (l.length + (linesText ls).length) := by
  have hline : ∀ u, indexOf crlfcrlf (l ++ u) = (indexOf crlfcrlf u).map (· + l.length) :=
    indexOf_append_of_not_mem fun c hc => (hl.plain c hc).1
  rw [linesText_cons, List.append_assoc, List.append_assoc, hline, indexOf_crlf_linesText h,
    Option.map_some, Nat.add_comm]

theorem lines_append (h : ∀ c ∈ l, c ≠ '\r' ∧ c ≠ '\n') (line s : Bytes) :
    lines line (l ++ s) = lines (line ++ l) s := by
  induction l generalizing line with
  | nil => simp
  | cons c l ih =>
    obtain ⟨hr, hn⟩ := h c List.mem_cons_self
    have hstep : lines line (c :: (l ++ s)) = lines (line ++ [c]) (l ++ s) := by
      rw [lines]
      · simp [hr, hn]
      · intro _ hc
        exact absurd hc hr
    rw [List.cons_append, hstep, ih fun c' hc' => h c' (List.mem_cons_of_mem _ hc')]
    simp

theorem lines_linesText (h : ∀ l ∈ ls, IsLine l) : lines [] (linesText ls) = ls := by
  induction ls with
  | nil => rfl
  | cons l ls ih =>
    have hl := h l List.mem_cons_self
    rw [linesText_cons, lines_append hl.plain, List.nil_append]
    change lines l ('\r' :: '\n' :: linesText ls) = _
    rw [lines, if_neg hl.ne_nil, ih fun l' h' => h l' (List.mem_cons_of_mem _ h')]

/-! ## Headers -/

structure Header where
  name : Bytes
  /-- The number of blanks before the value. -/
  pad : ℕ
  value : Bytes

def Header.line (h : Header) : Bytes := h.name ++ ':' :: (List.replicate h.pad ' ' ++ h.value)

structure Header.Valid (h : Header) : Prop where
  name_ne : h.name ≠ []
  name : ∀ c ∈ h.name, isSpace c = false ∧ c ≠ ':'
  value : ∀ c ∈ h.value, c ≠ '\r' ∧ c ≠ '\n'
  value_head : ∀ c ∈ h.value.head?, c ≠ ' '

/-- Values under one name are joined; names differ by their lower case. -/
def headerTable (headers : List Header) : Table Bytes Bytes :=
  headers.foldl (fun t h =>
    t.set (h.name.map Char.toLower) (some ((t.get (h.name.map Char.toLower)).elim h.value
      fun old => old ++ ',' :: h.value))) ∅

theorem Header.Valid.isLine {h : Header} (hv : h.Valid) : IsLine h.line where
  ne_nil := by simp [Header.line]
  plain c hc := by
    simp only [Header.line, List.mem_append, List.mem_cons, List.mem_replicate] at hc
    rcases hc with hname | rfl | ⟨-, rfl⟩ | hvalue
    · obtain ⟨hspace, -⟩ := hv.name c hname
      constructor
      · rintro rfl
        exact absurd hspace (by decide)
      · rintro rfl
        exact absurd hspace (by decide)
    · decide
    · decide
    · exact hv.value c hvalue

theorem dropWhile_pad (n : ℕ) {value : Bytes} (h : ∀ c ∈ value.head?, c ≠ ' ') :
    (List.replicate n ' ' ++ value).dropWhile (· = ' ') = value := by
  induction n with
  | zero =>
    cases value with
    | nil => rfl
    | cons c value =>
      have hc : c ≠ ' ' := h c rfl
      simp [hc]
  | succ n ih =>
    rw [List.replicate_succ, List.cons_append, List.dropWhile_cons_of_pos (by simp)]
    exact ih

theorem headerLine_line {h : Header} (hv : h.Valid) : headerLine h.line = some (h.name, h.value) := by
  have hkey : h.line.takeWhile (fun c => !isSpace c && c ≠ ':') = h.name := by
    rw [Header.line, List.takeWhile_append_of_pos, List.takeWhile_cons_of_neg (by simp),
      List.append_nil]
    intro c hc
    obtain ⟨hspace, hcolon⟩ := hv.name c hc
    simp [hspace, hcolon]
  have hdrop : h.line.drop h.name.length = ':' :: (List.replicate h.pad ' ' ++ h.value) :=
    List.drop_left
  unfold headerLine
  simp only [hkey, hdrop, if_neg hv.name_ne, dropWhile_pad h.pad hv.value_head]

theorem addHeader_line {h : Header} (hv : h.Valid) (t : Table Bytes Bytes) :
    addHeader t h.line = .ok (t.set (h.name.map Char.toLower)
      (some ((t.get (h.name.map Char.toLower)).elim h.value fun old => old ++ ',' :: h.value))) := by
  unfold addHeader
  rw [headerLine_line hv]
  simp only
  cases t.get (h.name.map Char.toLower) <;> rfl

theorem foldlM_addHeader {headers : List Header} (hv : ∀ h ∈ headers, h.Valid) :
    (headers.map Header.line).foldlM addHeader ∅ = .ok (headerTable headers) := by
  unfold headerTable
  generalize (∅ : Table Bytes Bytes) = t
  induction headers generalizing t with
  | nil => rfl
  | cons h headers ih =>
    rw [List.map_cons, List.foldlM_cons, addHeader_line (hv h List.mem_cons_self), List.foldl_cons]
    exact ih (fun h' hh => hv h' (List.mem_cons_of_mem _ hh)) _

/-! ## Numbers -/

/-- Without the space around it. -/
def trim (s : Bytes) : Bytes := ((s.dropWhile isSpace).reverse.dropWhile isSpace).reverse

def decimal (s : Bytes) : ℕ := s.foldl (fun n c => 10 * n + Hexadecimal.value c) 0

structure IsDecimal (s : Bytes) (n : ℕ) : Prop where
  ne_nil : trim s ≠ []
  digits : ∀ c ∈ trim s, c.isDigit
  value : decimal (trim s) = n

/-- `tonumber` reads decimal numbers up to a limit as what they are. -/
def Lua.ReadsDecimals (L : Lua) (limit : ℕ) : Prop :=
  ∀ s n, IsDecimal s n → n ≤ limit → L.tonumber s = some (.int n)

/-! ## Chunks -/

structure IsSizeLine (digits extension : Bytes) (size : ℕ) : Prop where
  digits_ne : digits ≠ []
  hex : ∀ c ∈ digits, c.isHexDigit
  size : Hexadecimal.number digits = size
  plain : ∀ c ∈ extension, c ≠ '\r' ∧ c ≠ '\n'
  ends : ∀ c ∈ extension.head?, c.isHexDigit = false

theorem isHexDigit_plain {c : Char} (h : c.isHexDigit) : c ≠ '\r' ∧ c ≠ '\n' := by
  constructor
  · rintro rfl
    exact absurd h (by decide)
  · rintro rfl
    exact absurd h (by decide)

theorem IsSizeLine.isLine {digits extension : Bytes} {size : ℕ}
    (h : IsSizeLine digits extension size) : IsLine (digits ++ extension) where
  ne_nil hnil := h.digits_ne (List.append_eq_nil_iff.mp hnil).1
  plain c hc := by
    rcases List.mem_append.mp hc with hdigit | hextension
    · exact isHexDigit_plain (h.hex c hdigit)
    · exact h.plain c hextension

theorem chunkHeader_of_isSizeLine {digits extension : Bytes} {size : ℕ}
    (h : IsSizeLine digits extension size) (s : Bytes) :
    chunkHeader ((digits ++ extension) ++ (crlf ++ s)) =
      some (size, (digits ++ extension).length + 3) := by
  have hdigits : ((digits ++ extension) ++ (crlf ++ s)).takeWhile Char.isHexDigit = digits := by
    rw [List.append_assoc, List.takeWhile_append_of_pos h.hex]
    cases extension with
    | nil => simp [crlf, Char.isHexDigit]
    | cons c extension =>
      have hc := h.ends c rfl
      simp [hc]
  have hextension : (extension ++ (crlf ++ s)).takeWhile (fun c => c ≠ '\r' && c ≠ '\n') =
      extension := by
    rw [List.takeWhile_append_of_pos]
    · simp [crlf]
    · intro c hc
      simp [h.plain c hc]
  have hdrop : ((digits ++ extension) ++ (crlf ++ s)).drop digits.length =
      extension ++ (crlf ++ s) := by
    rw [List.append_assoc]
    exact List.drop_left
  have hrest : ((digits ++ extension) ++ (crlf ++ s)).drop (digits.length + extension.length) =
      crlf ++ s := List.drop_left' List.length_append
  unfold chunkHeader
  simp only [hdigits, hdrop, hextension, hrest, List.prefix_append, and_true, if_pos h.digits_ne,
    h.size, List.length_append]

structure Chunk where
  digits : Bytes
  extension : Bytes
  data : Bytes

def Chunk.sizeLine (c : Chunk) : Bytes := c.digits ++ c.extension

def Chunk.text (c : Chunk) : Bytes := c.sizeLine ++ (crlf ++ (c.data ++ crlf))

structure Chunk.Valid (c : Chunk) : Prop where
  size : IsSizeLine c.digits c.extension c.data.length
  data_ne : c.data ≠ []

/-- What follows the chunks with data. -/
structure Last where
  digits : Bytes
  extension : Bytes
  trailers : List Bytes

def Last.sizeLine (l : Last) : Bytes := l.digits ++ l.extension

def Last.tail (l : Last) : Bytes := linesText l.trailers ++ crlf

def Last.text (l : Last) : Bytes := l.sizeLine ++ (crlf ++ l.tail)

structure Last.Valid (l : Last) : Prop where
  size : IsSizeLine l.digits l.extension 0
  trailers : ∀ line ∈ l.trailers, IsLine line

/-! ## Messages -/

/-- How the end of a body is told. -/
inductive Framing where
  /-- There is no body. -/
  | bare
  | length (body : Bytes)
  | chunked (chunks : List Chunk) (last : Last)

structure Message where
  hundreds : Char
  tens : Char
  ones : Char
  reason : Bytes
  headers : List Header
  framing : Framing

namespace Message

def code (m : Message) : ℕ := 100 * Hexadecimal.value m.hundreds + 10 * Hexadecimal.value m.tens + Hexadecimal.value m.ones

def statusLine (m : Message) : Bytes :=
  ['H', 'T', 'T', 'P', '/', '1', '.', '1', ' '] ++ m.hundreds :: m.tens :: m.ones :: ' ' :: m.reason

def headLines (m : Message) : List Bytes := m.statusLine :: m.headers.map Header.line

def head (m : Message) : Bytes := linesText m.headLines ++ crlf

def bodyText (m : Message) : Bytes :=
  match m.framing with
  | .bare => []
  | .length body => body
  | .chunked chunks last => (chunks.map Chunk.text).flatten ++ last.text

def text (m : Message) : Bytes := m.head ++ m.bodyText

def body (m : Message) : Bytes :=
  match m.framing with
  | .bare => []
  | .length body => body
  | .chunked chunks _ => (chunks.map Chunk.data).flatten

def IsChunked (m : Message) : Prop := ∃ chunks last, m.framing = .chunked chunks last

def field (m : Message) (name : String) : Option Bytes := (headerTable m.headers).get name.toList

def packet (m : Message) : Packet :=
  ⟨.response m.code ['1', '.', '1'], headerTable m.headers, some m.body⟩

end Message

/-- Responses with such a code, or to such a request, have no body. -/
def Bodiless (o : Options) (code : ℕ) : Prop :=
  o.method = some "HEAD".toList ∨ code = 204 ∨ code = 304 ∨ (100 ≤ code ∧ code < 200)

/-- The headers announce the body in the way in which it is sent. -/
def Message.Framed (o : Options) (m : Message) : Prop :=
  match m.framing with
  | .bare => Bodiless o m.code ∧
      ∀ v, m.field "content-length" = some v → ∃ n ≤ o.bodylimit, IsDecimal v n
  | .length body => ¬ Bodiless o m.code ∧ m.field "transfer-encoding" = none ∧
      body.length ≤ o.bodylimit ∧
      ∃ v, m.field "content-length" = some v ∧ IsDecimal v body.length
  | .chunked chunks last => ¬ Bodiless o m.code ∧ m.field "content-length" = none ∧
      (∃ v, m.field "transfer-encoding" = some v ∧
        (trim v).map Char.toLower = "chunked".toList) ∧
      (∀ c ∈ chunks, c.Valid) ∧ last.Valid

structure Message.Valid (o : Options) (m : Message) : Prop where
  digits : m.hundreds.isDigit ∧ m.tens.isDigit ∧ m.ones.isDigit
  reason : ∀ c ∈ m.reason, c ≠ '\r' ∧ c ≠ '\n'
  headers : ∀ h ∈ m.headers, h.Valid
  framed : m.Framed o

/-! ## Heads -/

theorem haveBody_iff {o : Options} {code : ℕ} :
    haveBody o code = true ↔ ¬ Bodiless o code ∧ code ≠ 301 := by
  simp only [haveBody, Bodiless, Bool.not_eq_true', Bool.or_eq_false_iff, decide_eq_false_iff_not,
    Bool.and_eq_false_iff, not_or, not_and_or]
  tauto

namespace Message

variable {L : Lua} {o : Options} {m : Message}

theorem Valid.statusLine_isLine (hv : m.Valid o) : IsLine m.statusLine where
  ne_nil := by simp [statusLine]
  plain c hc := by
    obtain ⟨ha, hb, hd⟩ := hv.digits
    have hdigit : ∀ d : Char, d.isDigit → d ≠ '\r' ∧ d ≠ '\n' := fun d hd =>
      isHexDigit_plain (by simp [Char.isHexDigit, hd])
    rw [statusLine, List.mem_append] at hc
    rcases hc with hversion | hrest
    · revert c
      simp
    · simp only [List.mem_cons] at hrest
      rcases hrest with rfl | rfl | rfl | rfl | hreason
      · exact hdigit _ ha
      · exact hdigit _ hb
      · exact hdigit _ hd
      · decide
      · exact hv.reason c hreason

theorem Valid.headLines_isLine (hv : m.Valid o) : ∀ l ∈ m.headLines, IsLine l := by
  intro l hl
  rcases List.mem_cons.mp hl with rfl | hheader
  · exact hv.statusLine_isLine
  · obtain ⟨h, hh, rfl⟩ := List.mem_map.mp hheader
    exact (hv.headers h hh).isLine

theorem Valid.statusLine_eq (hv : m.Valid o) :
    Httpstream.statusLine m.statusLine = some (['1', '.', '1'], m.code) := by
  obtain ⟨ha, hb, hd⟩ := hv.digits
  simp [Message.statusLine, Httpstream.statusLine, code, ha, hb, hd]

theorem Valid.length_le (hv : m.Valid o) {v : Bytes} (h : m.field "content-length" = some v) :
    ∃ n ≤ o.bodylimit, IsDecimal v n := by
  have hframed := hv.framed
  unfold Framed at hframed
  cases hf : m.framing with
  | bare =>
    rw [hf] at hframed
    exact hframed.2 v h
  | length body =>
    rw [hf] at hframed
    obtain ⟨-, -, hlimit, v', hv', hdecimal⟩ := hframed
    rw [h] at hv'
    obtain rfl := Option.some.inj hv'
    exact ⟨_, hlimit, hdecimal⟩
  | chunked chunks last =>
    rw [hf] at hframed
    obtain ⟨-, hnone, -⟩ := hframed
    rw [h] at hnone
    cases hnone

/-- The packet while the body is being read. -/
def opened (o : Options) (m : Message) : Packet :=
  { m.packet with body := if haveBody o m.code then some [] else none }

theorem parseHead_headLines (ho : o.client = true) (hL : L.ReadsDecimals o.bodylimit)
    (hv : m.Valid o) :
    parseHead L o (linesText m.headLines) = .ok {
      packet := m.opened o
      chunked := haveBody o m.code && m.field "transfer-encoding" = some "chunked".toList
      len := if haveBody o m.code then (m.field "content-length").bind L.tonumber
        else some (.int 0) } := by
  have hlen : ¬ (((m.field "content-length").bind L.tonumber).any (·.exceeds o.bodylimit)) := by
    cases hlength : m.field "content-length" with
    | none => simp
    | some v =>
      obtain ⟨n, hn, hdecimal⟩ := hv.length_le hlength
      rw [Option.bind_some, hL v n hdecimal hn]
      simp only [Option.any_some, Num.exceeds, decide_eq_true_iff]
      omega
  have hheaders : parseHeaders L o (m.headers.map Header.line) =
      .ok (headerTable m.headers, (m.field "content-length").bind L.tonumber) := by
    unfold parseHeaders
    rw [foldlM_addHeader hv.headers]
    exact if_neg hlen
  unfold parseHead
  rw [lines_linesText hv.headLines_isLine, headLines]
  simp only [ho, if_true]
  unfold parseResponse
  rw [hv.statusLine_eq, hheaders]
  rfl

theorem Valid.indexOf_head (hv : m.Valid o) (s : Bytes) :
    indexOf crlfcrlf (m.head ++ s) = some (m.head.length - 4) := by
  have hlines := hv.headLines_isLine
  rw [headLines] at hlines
  rw [head, headLines, List.append_assoc, indexOf_linesText (hlines _ List.mem_cons_self)
    fun l hl => hlines l (List.mem_cons_of_mem _ hl)]
  rw [linesText_cons]
  simp only [List.length_append, crlf, List.length_cons, List.length_nil]
  congr 1
  omega

end Message

end Prosody.Httpstream
