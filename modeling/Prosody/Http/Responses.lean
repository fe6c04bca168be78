import Prosody.Http.Message

/-! # Responses in any pieces

The parser as a client. It tells of every response once its last byte has been fed, unless the stream
has something in it, or is cut in a way, that the parser does not cope with. -/

namespace Prosody.Httpstream

def textOf (ms : List Message) : Bytes := (ms.map Message.text).flatten

@[simp] theorem textOf_cons (m : Message) (ms : List Message) :
    textOf (m :: ms) = m.head ++ (m.bodyText ++ textOf ms) := by
  simp [textOf, Message.text]

/-- The messages of which nothing is missing while `n` bytes of all are still to come. -/
def ended (n : ℕ) : List Message → List Message
  | [] => []
  | m :: ms => if n ≤ (textOf ms).length then m :: ended n ms else []

/-! ## What the parser copes with -/

/-- A piece ends where `n` bytes are still to come. -/
def Cut (pieces : List Bytes) (n : ℕ) : Prop :=
  ∃ xs ys, pieces = xs ++ ys ∧ ys.flatten.length = n

/-- Where the end of a chunked message is cut. After the line of its last chunk, `tail` bytes of the
message follow, and `after` bytes after these: a piece that ends among them has fewer than three of the
message's, and if there are no more than two, no other piece ends where the message does. -/
def CutsWell (cut : ℕ → Prop) (after tail : ℕ) : Prop :=
  ∀ n, cut n → after < n → n ≤ after + tail → after + tail < n + 3 ∧ (tail = 2 → ¬ cut after)

/-- What is needed of the messages of a stream and of its pieces. -/
def Copes (cut : ℕ → Prop) : List Message → Prop
  | [] => True
  | m :: ms =>
    (m.code = 101 → ms = []) ∧
    (m.code = 301 → m.bodyText = []) ∧
    (∀ chunks last, m.framing = .chunked chunks last →
      m.field "transfer-encoding" = some "chunked".toList ∧ (∀ m' ∈ ms, ¬ m'.IsChunked) ∧
        CutsWell cut (textOf ms).length last.tail.length) ∧
    Copes cut ms

/-! ## Parts of the text -/

variable {u : Bytes}

variable {t : Bytes}

theorem split_of_le {s x : Bytes} (h : s ++ u = x ++ t) (hle : x.length ≤ s.length) :
    ∃ s', s = x ++ s' ∧ s' ++ u = t := by
  rcases List.append_eq_append_iff.mp h with ⟨y, hx, hu⟩ | ⟨y, hs, ht⟩
  · have hy : y = [] := by
      have hlength := congrArg List.length hx
      rw [List.length_append] at hlength
      exact List.eq_nil_of_length_eq_zero (by omega)
    subst hy
    exact ⟨[], by simpa using hx.symm, by simpa using hu⟩
  · exact ⟨y, hs, ht.symm⟩

theorem length_le_of_append {s : Bytes} (h : s ++ u = t) : u.length ≤ t.length := by
  rw [← h, List.length_append]
  exact Nat.le_add_left _ _

theorem indexOf_eq_none_of_lt {pattern s : Bytes} {i : ℕ}
    (h : indexOf pattern (s ++ u) = some i) (hlt : s.length < i + pattern.length) :
    indexOf pattern s = none := by
  cases hs : indexOf pattern s with
  | none => rfl
  | some j =>
    have hj := indexOf_append hs u
    rw [h] at hj
    obtain rfl := Option.some.inj hj
    have := indexOf_length hs
    omega

theorem line_short {line s : Bytes} (hline : IsLine line) (h : s ++ u = line ++ (crlf ++ t))
    (hlt : s.length < line.length + 2) : indexOf crlf s = none := by
  have hfound := indexOf_crlf hline t
  rw [← h] at hfound
  exact indexOf_eq_none_of_lt hfound hlt

theorem line_long {line s : Bytes} (hline : IsLine line) (h : s ++ u = line ++ (crlf ++ t))
    (hle : line.length + 2 ≤ s.length) :
    ∃ s', s = line ++ (crlf ++ s') ∧ s' ++ u = t ∧ indexOf crlf s = some line.length := by
  rw [← List.append_assoc] at h
  obtain ⟨s', rfl, ht⟩ := split_of_le h (by simpa [crlf] using hle)
  rw [List.append_assoc]
  exact ⟨s', rfl, ht, indexOf_crlf hline s'⟩

/-! ## Where the parser is -/

/-- No error has been met, and there is room for what is still to come. -/
structure Sound (o : Options) (u : Bytes) (p : Parser) : Prop where
  error : p.error = false
  room : p.buflen + u.length ≤ o.buflimit

/-- The body of a message is being read, and its length is known. -/
structure InBody (o : Options) (u : Bytes) (p : Parser) (m : Message) (ms : List Message) : Prop
    extends Sound o u p where
  state : p.state = some (m.opened o)
  chunked : p.chunked = false
  len : p.len = some (.int m.body.length)
  buf : p.buf.concat ++ u = m.body ++ textOf ms
  buflen : p.buflen = p.buf.concat.length
  size : p.chunkSize = none
  start : p.chunkStart = none ∨ ∀ m' ∈ ms, ¬ m'.IsChunked
  upgrade : m.code = 101 → m.body = [] ∧ ms = []

inductive Remembers (cut : ℕ → Prop) (p : Parser) (after : ℕ) : List Chunk → Last → Prop
  | nothing {chunks last} (hsize : p.chunkSize = none) (hstart : p.chunkStart = none) :
      Remembers cut p after chunks last
  | chunk {c chunks last} (hsize : p.chunkSize = some c.data.length)
      (hstart : p.chunkStart = some (c.sizeLine.length + 3))
      (hlen : c.sizeLine.length + 2 ≤ p.buflen) : Remembers cut p after (c :: chunks) last
  | last {last n} (hsize : p.chunkSize = some 0)
      (hstart : p.chunkStart = some (last.sizeLine.length + 3))
      (hlen : last.sizeLine.length + 2 ≤ p.buflen) (hcut : cut n) (hafter : after < n)
      (htail : n ≤ after + last.tail.length) : Remembers cut p after [] last

/-- The chunks of a message are being read, of which some are left. -/
structure InChunks (o : Options) (cut : ℕ → Prop) (u : Bytes) (p : Parser) (m : Message)
    (ms : List Message) (done : Bytes) (chunks : List Chunk) (last : Last) : Prop
    extends Sound o u p where
  state : p.state = some { m.packet with body := some done }
  body : done ++ (chunks.map Chunk.data).flatten = m.body
  chunked : p.chunked = true
  buf : p.buf.concat ++ u = (chunks.map Chunk.text).flatten ++ (last.text ++ textOf ms)
  buflen : p.buflen = p.buf.concat.length
  remembers : Remembers cut p (textOf ms).length chunks last
  only : ∀ m' ∈ ms, ¬ m'.IsChunked
  cuts : CutsWell cut (textOf ms).length last.tail.length
  chunksValid : ∀ c ∈ chunks, c.Valid
  lastValid : last.Valid

/-- The parser has `u` still to come of the messages. -/
inductive At (o : Options) (cut : ℕ → Prop) (u : Bytes) : Parser → List Message → Prop
  | between {p ms} (h : Sound o u p) (hstate : p.state = none) (hsize : p.chunkSize = none)
      (hstart : p.chunkStart = none ∨ ∀ m' ∈ ms, ¬ m'.IsChunked)
      (hbuf : p.buf.concat ++ u = textOf ms) (hlen : p.buf.concat.length ≤ p.buflen) :
      At o cut u p ms
  | body {p m ms} (h : InBody o u p m ms) (hne : m.body ≠ []) : At o cut u p (m :: ms)
  | chunks {p m ms done chunks last} (h : InChunks o cut u p m ms done chunks last) :
      At o cut u p (m :: ms)

/-- What a round does with the messages that are left. -/
inductive Step (o : Options) (cut : ℕ → Prop) (u : Bytes) : List Message → Turn → Prop
  | stop {ms p} (h : At o cut u p ms) (hstuck : ended u.length ms = []) : Step o cut u ms (.stop p)
  | next {ms p} (h : At o cut u p ms) : Step o cut u ms (.next p)
  | call {m ms p} (h : At o cut u p ms) (hend : u.length ≤ (textOf ms).length) :
      Step o cut u (m :: ms) (.call p (.success m.packet))

variable {ms : List Message} {m : Message}

theorem ended_of_lt {n : ℕ} (h : (textOf ms).length < n) : ended n (m :: ms) = [] :=
  if_neg (Nat.not_le.mpr h)

/-! ## Bodies -/

variable {o : Options} {p : Parser}

theorem readBody_inBody (cut : ℕ → Prop)
    (h : InBody o u p m ms) : Step o cut u (m :: ms) (readBody o p (m.opened o)) := by
  have hlength := congrArg List.length h.buf
  simp only [List.length_append] at hlength
  unfold readBody
  rw [h.chunked, h.len]
  simp only [Bool.and_false, Bool.false_eq_true, if_false, Num.le, Int.ofNat_le, decide_eq_true_iff]
  by_cases hle : m.body.length ≤ p.buflen
  · rw [if_pos hle]
    obtain ⟨s, hs, hrest⟩ := split_of_le h.buf (h.buflen ▸ hle)
    have hroom := h.room
    by_cases hupgrade : (o.client && (m.opened o).head.code = some 101) = true
    · rw [if_pos hupgrade]
      have hcode : m.code = 101 := by
        rw [Bool.and_eq_true, decide_eq_true_iff] at hupgrade
        exact Option.some.inj hupgrade.2
      obtain ⟨hbody, rfl⟩ := h.upgrade hcode
      obtain ⟨rfl, rfl⟩ := List.append_eq_nil_iff.mp hrest
      have hpacket : { m.opened o with body := some p.buf.concat } = m.packet := by
        rw [hs, List.append_nil]
        rfl
      rw [hpacket]
      exact .call (.between ⟨h.error, Nat.zero_le _⟩ rfl h.size h.start rfl (Nat.zero_le _))
        (Nat.zero_le _)
    · rw [if_neg hupgrade]
      unfold takeBody
      have hafter : after p.buf.concat m.body.length = s := by
        rw [hs]
        simp [after]
      have hpacket : { m.opened o with body := some (upto p.buf.concat m.body.length) } =
          m.packet := by
        rw [hs]
        simp [upto, Message.opened, Message.packet]
      simp only [Num.index, hafter, hpacket]
      refine .call (.between ⟨h.error, ?_⟩ rfl h.size h.start hrest (Nat.le_refl _))
        (length_le_of_append hrest)
      rw [hs, List.length_append] at hlength
      rw [h.buflen, hs, List.length_append] at hroom
      simp only
      omega
  · rw [if_neg hle]
    have hbuflen := h.buflen
    refine .stop (.body h ?_) (ended_of_lt (by omega))
    intro hnil
    rw [hnil] at hle
    exact hle (Nat.zero_le _)

/-! ## Chunks -/

variable {cut : ℕ → Prop}

variable {done : Bytes} {last : Last} {chunks : List Chunk}

theorem takeChunk_data {c : Chunk} (h : InChunks o cut u p m ms done (c :: chunks) last)
    (hle : c.sizeLine.length + 2 ≤ p.buf.concat.length) :
    Step o cut u (m :: ms) (takeChunk p { m.packet with body := some done } p.buf.concat
      c.data.length (c.sizeLine.length + 3)) := by
  have hc := h.chunksValid c List.mem_cons_self
  have hline : IsLine c.sizeLine := hc.size.isLine
  have hbuf := h.buf
  have hlength := congrArg List.length hbuf
  rw [List.map_cons, List.flatten_cons, Chunk.text, List.append_assoc, List.append_assoc,
    List.append_assoc] at hbuf
  obtain ⟨s, hs, hrest, -⟩ := line_long hline hbuf hle
  have hpos := List.length_pos_iff.mpr hc.data_ne
  have hroom := h.room
  have hbuflen := h.buflen
  have hslength := congrArg List.length hs
  simp only [List.map_cons, List.flatten_cons, Chunk.text, Last.text, List.length_append, crlf,
    List.length_cons, List.length_nil] at hlength hslength
  unfold takeChunk
  simp only
  rw [if_neg fun hzero => by omega]
  split
  · rename_i hdata
    obtain ⟨t, rfl, ht⟩ := split_of_le hrest (by
      simp only [List.length_append, crlf, List.length_cons, List.length_nil]
      omega)
    have htake : (p.buf.concat.drop (c.sizeLine.length + 3 - 1)).take c.data.length = c.data := by
      rw [hs, ← List.append_assoc, List.drop_left' (by simp [crlf]), List.append_assoc,
        List.take_left]
    have hdrop : p.buf.concat.drop (c.sizeLine.length + 3 + c.data.length + 1) = t := by
      rw [hs, ← List.append_assoc, ← List.append_assoc]
      refine List.drop_left' ?_
      simp only [List.length_append, crlf, List.length_cons, List.length_nil]
      omega
    simp only [List.length_append, crlf, List.length_cons, List.length_nil] at hslength
    simp only [Option.getD_some, htake, hdrop]
    refine .next (.chunks (show InChunks o cut u _ m ms (done ++ c.data) chunks last from {
      error := h.error
      room := ?_
      state := rfl
      body := ?_
      chunked := h.chunked
      buf := ht
      buflen := ?_
      remembers := .nothing rfl rfl
      only := h.only
      cuts := h.cuts
      chunksValid := fun c' hc' => h.chunksValid c' (List.mem_cons_of_mem _ hc')
      lastValid := h.lastValid }))
    · simp only
      omega
    · rw [← h.body]
      simp
    · simp only [concat_string]
      omega
  · rename_i hdata
    refine .stop (.chunks { h with
      buf := h.buf
      buflen := h.buflen
      remembers := .chunk rfl rfl (h.buflen ▸ hle) }) (ended_of_lt ?_)
    omega

theorem takeChunk_last (hcut : cut u.length) (h : InChunks o cut u p m ms done [] last)
    (hle : last.sizeLine.length + 2 ≤ p.buf.concat.length) :
    Step o cut u (m :: ms) (takeChunk p { m.packet with body := some done } p.buf.concat
      0 (last.sizeLine.length + 3)) := by
  have hl := h.lastValid
  have hline : IsLine last.sizeLine := hl.size.isLine
  have hbuf := h.buf
  have hlength := congrArg List.length hbuf
  rw [List.map_nil, List.flatten_nil, List.nil_append, Last.text, List.append_assoc,
    List.append_assoc] at hbuf
  obtain ⟨s, hs, hrest, -⟩ := line_long hline hbuf hle
  have hroom := h.room
  have hbuflen := h.buflen
  have hslength := congrArg List.length hs
  have hrlength := congrArg List.length hrest
  simp only [List.length_append, crlf, List.length_cons, List.length_nil] at hslength hrlength
  have hdrop : p.buf.concat.drop (last.sizeLine.length + 3 - 3) = crlf ++ s := by
    rw [hs]
    exact List.drop_left' (by omega)
  have hblank : indexOf crlfcrlf ((crlf ++ s) ++ u) = some (linesText last.trailers).length := by
    rw [List.append_assoc, hrest, Last.tail, List.append_assoc]
    exact indexOf_crlf_linesText hl.trailers _
  unfold takeChunk
  simp only [hdrop]
  by_cases hend : last.tail.length ≤ s.length
  · obtain ⟨t, rfl, ht⟩ := split_of_le hrest hend
    have htail : last.tail.length = (linesText last.trailers).length + 2 := by
      simp [Last.tail, crlf]
    have hfound := indexOf_of_append hblank (by
      simp only [List.length_append, crlfcrlf, crlf, List.length_cons, List.length_nil]
      omega)
    have hstrip : stripTrailers p.buf.concat = t := by
      have hindex : indexOf crlfcrlf p.buf.concat =
          some (last.sizeLine.length + (linesText last.trailers).length) := by
        rw [hs, ← indexOf_linesText hline hl.trailers t, linesText_cons, Last.tail]
        simp
      unfold stripTrailers
      rw [hindex, hs, ← List.append_assoc, ← List.append_assoc]
      refine List.drop_left' ?_
      simp only [List.length_append, crlf, List.length_cons, List.length_nil]
      omega
    rw [if_pos ⟨trivial, by rw [hfound]; rfl⟩, hstrip]
    have hbody : { m.packet with body := some done } = m.packet := by
      have hdone := h.body
      rw [List.map_nil, List.flatten_nil, List.append_nil] at hdone
      rw [hdone]
      rfl
    rw [hbody]
    refine .call (.between ⟨h.error, h.room⟩ rfl rfl (.inr h.only) ht ?_) (length_le_of_append ht)
    simp only [concat_string]
    simp only [List.length_append] at hslength
    omega
  · have hmissing : indexOf crlfcrlf (crlf ++ s) = none := by
      refine indexOf_eq_none_of_lt hblank ?_
      have htail : last.tail.length = (linesText last.trailers).length + 2 := by
        simp [Last.tail, crlf]
      simp only [List.length_append, crlfcrlf, crlf, List.length_cons, List.length_nil]
      omega
    obtain ⟨hfew, -⟩ := h.cuts u.length hcut (by omega) (by omega)
    rw [hmissing, if_neg (by simp), if_neg (by omega)]
    exact .stop (.chunks { h with
      buf := h.buf
      buflen := h.buflen
      remembers := .last rfl rfl (h.buflen ▸ hle) hcut (by omega) (by omega) })
      (ended_of_lt (by omega))

theorem InChunks.concat (h : InChunks o cut u p m ms done chunks last) :
    InChunks o cut u { p with buf := .string p.buf.concat } m ms done chunks last :=
  { h with
    buf := h.buf
    buflen := h.buflen
    remembers := by
      cases h.remembers with
      | nothing hsize hstart => exact .nothing hsize hstart
      | chunk hsize hstart hlen => exact .chunk hsize hstart hlen
      | last hsize hstart hlen hcut hafter htail => exact .last hsize hstart hlen hcut hafter htail }

/-- While the line of a chunk has not arrived, the message is not complete. -/
theorem readChunk_inChunks (hcut : cut u.length) (h : InChunks o cut u p m ms done chunks last) :
    Step o cut u (m :: ms) (readChunk p { m.packet with body := some done }) := by
  have hbuf := h.buf
  have hlength := congrArg List.length hbuf
  have hl := h.lastValid
  unfold readChunk
  cases chunks with
  | nil =>
    rw [List.map_nil, List.flatten_nil, List.nil_append, Last.text, List.append_assoc,
      List.append_assoc] at hbuf
    have hline : IsLine last.sizeLine := hl.size.isLine
    by_cases hle : last.sizeLine.length + 2 ≤ p.buf.concat.length
    · have hheader : chunkHeader p.buf.concat = some (0, last.sizeLine.length + 3) := by
        obtain ⟨s, hs, -⟩ := line_long hline hbuf hle
        rw [hs]
        exact chunkHeader_of_isSizeLine hl.size s
      obtain ⟨s, -, -, hindex⟩ := line_long hline hbuf hle
      have htake := takeChunk_last hcut h.concat hle
      simp only [hindex, Option.isNone_some, Bool.false_eq_true, if_false]
      cases h.remembers with
      | nothing hsize hstart =>
        simp only [hsize, hheader]
        simpa only [hsize, concat_string] using htake
      | last hsize hstart hlen hcut' hafter htail =>
        simp only [hsize, hstart]
        simpa only [hsize, hstart, concat_string] using htake
    · simp only [line_short hline hbuf (by omega), Option.isNone_none, if_true]
      refine .stop (.chunks h.concat) (ended_of_lt ?_)
      simp only [List.map_nil, List.flatten_nil, Last.text, List.length_append, crlf,
        List.length_cons, List.length_nil] at hlength
      have htail : 2 ≤ last.tail.length := by simp [Last.tail, crlf]
      omega
  | cons c chunks =>
    rw [List.map_cons, List.flatten_cons, Chunk.text, List.append_assoc, List.append_assoc,
      List.append_assoc] at hbuf
    have hc := h.chunksValid c List.mem_cons_self
    have hline : IsLine c.sizeLine := hc.size.isLine
    by_cases hle : c.sizeLine.length + 2 ≤ p.buf.concat.length
    · have hheader : chunkHeader p.buf.concat =
          some (c.data.length, c.sizeLine.length + 3) := by
        obtain ⟨s, hs, -⟩ := line_long hline hbuf hle
        rw [hs]
        exact chunkHeader_of_isSizeLine hc.size s
      obtain ⟨s, -, -, hindex⟩ := line_long hline hbuf hle
      have htake := takeChunk_data h.concat hle
      simp only [hindex, Option.isNone_some, Bool.false_eq_true, if_false]
      cases h.remembers with
      | nothing hsize hstart =>
        simp only [hsize, hheader]
        simpa only [hsize, concat_string] using htake
      | chunk hsize hstart hlen =>
        simp only [hsize, hstart]
        simpa only [hsize, hstart, concat_string] using htake
    · simp only [line_short hline hbuf (by omega), Option.isNone_none, if_true]
      refine .stop (.chunks h.concat) (ended_of_lt ?_)
      simp only [List.map_cons, List.flatten_cons, Chunk.text, Last.text, List.length_append, crlf,
        List.length_cons, List.length_nil] at hlength
      omega

theorem readBody_inChunks {o : Options} (ho : o.client = true) {cut : ℕ → Prop} {u : Bytes}
    (hcut : cut u.length) {p : Parser} {m : Message} {ms : List Message} {done : Bytes}
    {chunks : List Chunk} {last : Last} (h : InChunks o cut u p m ms done chunks last) :
    Step o cut u (m :: ms) (readBody o p { m.packet with body := some done }) := by
  have hread := readChunk_inChunks hcut h
  have hlength := congrArg List.length h.buf
  have hbuflen := h.buflen
  unfold readBody readChunked
  rw [ho, h.chunked]
  simp only [Bool.and_self, if_true]
  cases hremembers : h.remembers with
  | nothing hsize hstart =>
    simp only [hstart]
    exact hread
  | @chunk c chunks last hsize hstart hlen =>
    simp only [hstart, hsize]
    split
    · refine .stop (.chunks h) (ended_of_lt ?_)
      simp only [List.map_cons, List.flatten_cons, Chunk.text, Last.text, List.length_append, crlf,
        List.length_cons, List.length_nil] at hlength
      omega
    · exact hread
  | @last last n hsize hstart hlen hcut' hafter htail =>
    simp only [hstart, hsize]
    split
    · refine .stop (.chunks h) (ended_of_lt ?_)
      simp only [List.map_nil, List.flatten_nil, Last.text, List.length_append, crlf,
        List.length_cons, List.length_nil] at hlength
      have htwo : 2 ≤ last.tail.length := by simp [Last.tail, crlf]
      obtain ⟨-, hother⟩ := h.cuts n hcut' hafter htail
      -- If nothing were missing, the blank line would have been cut twice.
      by_contra hnot
      have hlast : last.tail.length = 2 := by omega
      have hsame : u.length = (textOf ms).length := by omega
      exact hother hlast (hsame ▸ hcut)
    · exact hread

/-! ## Rounds -/

/-- Well-formed messages that the parser copes with. -/
structure Stream (o : Options) (cut : ℕ → Prop) (ms : List Message) : Prop where
  valid : ∀ m ∈ ms, m.Valid o
  copes : Copes cut ms

theorem Stream.tail (h : Stream o cut (m :: ms)) : Stream o cut ms :=
  ⟨fun m' hm => h.valid m' (List.mem_cons_of_mem _ hm), h.copes.2.2.2⟩

theorem readBody_opened {L : Lua} (ho : o.client = true)
    (hcut : cut u.length) (hs : Stream o cut (m :: ms))
    (h : Sound o u p) (hL : L.ReadsDecimals o.bodylimit) (hstate : p.state = some (m.opened o))
    (hchunked : p.chunked =
      (haveBody o m.code && m.field "transfer-encoding" = some "chunked".toList))
    (hlen : p.len = if haveBody o m.code then (m.field "content-length").bind L.tonumber
      else some (.int 0)) (hsize : p.chunkSize = none)
    (hstart : p.chunkStart = none ∨ ∀ m' ∈ m :: ms, ¬ m'.IsChunked)
    (hbuf : p.buf.concat ++ u = m.bodyText ++ textOf ms)
    (hbuflen : p.buflen = p.buf.concat.length) :
    Step o cut u (m :: ms) (readBody o p (m.opened o)) := by
  have hframed := (hs.valid m List.mem_cons_self).framed
  obtain ⟨hupgrade, hmoved, hchunks, -⟩ := hs.copes
  have hstart' : p.chunkStart = none ∨ ∀ m' ∈ ms, ¬ m'.IsChunked :=
    hstart.imp_right fun h m' hm => h m' (List.mem_cons_of_mem _ hm)
  unfold Message.Framed at hframed
  by_cases hbody : haveBody o m.code = true
  · rw [hbody] at hchunked hlen
    obtain ⟨hbodied, hnot⟩ := haveBody_iff.mp hbody
    have hother : m.code ≠ 101 := by
      intro hcode
      exact hbodied (.inr (.inr (.inr (by omega))))
    cases hf : m.framing with
    | bare =>
      rw [hf] at hframed
      exact absurd hframed.1 hbodied
    | length body =>
      rw [hf] at hframed
      obtain ⟨-, hnone, hlimit, v, hv, hdecimal⟩ := hframed
      have hmbody : m.body = body := by rw [Message.body, hf]
      refine readBody_inBody cut { h with
        state := hstate
        chunked := by simpa [hnone] using hchunked
        len := ?_
        buf := ?_
        buflen := hbuflen
        size := hsize
        start := hstart'
        upgrade := fun hcode => absurd hcode hother }
      · rw [hlen, if_pos rfl, hv, Option.bind_some, hL v _ hdecimal hlimit, hmbody]
      · rw [hbuf, Message.bodyText, hf, hmbody]
    | chunked chunks last =>
      rw [hf] at hframed
      obtain ⟨-, -, -, hcvalid, hlvalid⟩ := hframed
      obtain ⟨hspelt, honly, hcuts⟩ := hchunks chunks last hf
      have hopened : m.opened o = { m.packet with body := some [] } := by
        rw [Message.opened, if_pos hbody]
      rw [hopened]
      have hfresh : p.chunkStart = none := hstart.resolve_right fun hnone =>
        hnone m List.mem_cons_self ⟨chunks, last, hf⟩
      exact @readBody_inChunks _ ho _ _ hcut _ _ _ _ chunks last { h with
        state := by rw [hstate, hopened]
        body := by rw [Message.body, hf, List.nil_append]
        chunked := by simpa [hspelt] using hchunked
        buf := by rw [hbuf, Message.bodyText, hf, List.append_assoc]
        buflen := hbuflen
        remembers := .nothing hsize hfresh
        only := honly
        cuts := hcuts
        chunksValid := hcvalid
        lastValid := hlvalid }
  · rw [Bool.not_eq_true] at hbody
    rw [hbody] at hchunked hlen
    have hnothing : m.bodyText = [] ∧ m.body = [] := by
      by_cases hcode : m.code = 301
      · have htext := hmoved hcode
        cases hf : m.framing with
        | bare => rw [Message.bodyText, Message.body, hf]; exact ⟨rfl, rfl⟩
        | length body =>
          rw [Message.bodyText, hf] at htext
          rw [Message.bodyText, Message.body, hf]
          exact ⟨htext, htext⟩
        | chunked chunks last =>
          rw [Message.bodyText, hf] at htext
          simp [Last.text, crlf] at htext
      · have hbodiless : Bodiless o m.code := by
          by_contra hnot
          rw [haveBody_iff.mpr ⟨hnot, hcode⟩] at hbody
          cases hbody
        cases hf : m.framing with
        | bare => rw [Message.bodyText, Message.body, hf]; exact ⟨rfl, rfl⟩
        | length body =>
          rw [hf] at hframed
          exact absurd hbodiless hframed.1
        | chunked chunks last =>
          rw [hf] at hframed
          exact absurd hbodiless hframed.1
    exact readBody_inBody cut { h with
      state := hstate
      chunked := by simpa using hchunked
      len := by simpa [hnothing.2] using hlen
      buf := by rw [hbuf, hnothing.1, hnothing.2]
      buflen := hbuflen
      size := hsize
      start := hstart'
      upgrade := fun hcode => ⟨hnothing.2, hupgrade hcode⟩ }

theorem turn_at {L : Lua} (ho : o.client = true) (hL : L.ReadsDecimals o.bodylimit)
    (hcut : cut u.length)
    (hs : Stream o cut ms) (h : At o cut u p ms) : Step o cut u ms (turn L o p) := by
  cases h with
  | body h hne =>
    unfold turn
    simp only [h.state]
    exact readBody_inBody cut h
  | chunks h =>
    unfold turn
    simp only [h.state]
    exact readBody_inChunks ho hcut h
  | between h hstate hsize hstart hbuf hlen =>
    have hroom := h.room
    unfold turn
    simp only [hstate]
    cases ms with
    | nil =>
      obtain ⟨hnil, -⟩ := List.append_eq_nil_iff.mp hbuf
      have hnone : indexOf crlfcrlf p.buf.concat = none := by
        rw [hnil]
        rfl
      simp only [hnone]
      exact .stop (.between ⟨h.error, h.room⟩ rfl hsize hstart hbuf hlen) rfl
    | cons m ms =>
      have hv := hs.valid m List.mem_cons_self
      have hlength := congrArg List.length hbuf
      rw [textOf_cons] at hbuf
      by_cases hhead : m.head.length ≤ p.buf.concat.length
      · obtain ⟨s, hsplit, hrest⟩ := split_of_le hbuf hhead
        have hfour : 4 ≤ m.head.length := by
          simp only [Message.head, Message.headLines, linesText_cons, List.length_append, crlf,
            List.length_cons, List.length_nil]
          omega
        have htwo : m.head.length - 4 + 2 = (linesText m.headLines).length := by
          simp only [Message.head, List.length_append, crlf, List.length_cons,
            List.length_nil] at hfour ⊢
          omega
        have htake : p.buf.concat.take (m.head.length - 4 + 2) = linesText m.headLines := by
          rw [hsplit, htwo, Message.head, List.append_assoc, List.take_left]
        have hdrop : p.buf.concat.drop (m.head.length - 4 + 4) = s := by
          rw [hsplit]
          exact List.drop_left' (by omega)
        have hindex : indexOf crlfcrlf p.buf.concat = some (m.head.length - 4) := by
          rw [hsplit]
          exact hv.indexOf_head s
        simp only [hindex, htake, hdrop, Message.parseHead_headLines ho hL hv]
        rw [hsplit, List.length_append] at hlen
        exact readBody_opened ho hcut hs
          ⟨h.error, by simp only; omega⟩ hL rfl rfl rfl hsize hstart hrest rfl
      · have hindex : indexOf crlfcrlf p.buf.concat = none := by
          have hfound := hv.indexOf_head (m.bodyText ++ textOf ms)
          rw [← hbuf] at hfound
          refine indexOf_eq_none_of_lt hfound ?_
          have hfour : crlfcrlf.length = 4 := rfl
          omega
        simp only [hindex]
        refine .stop (.between ⟨h.error, h.room⟩ rfl hsize hstart ?_ hlen) (ended_of_lt ?_)
        · rw [textOf_cons]
          exact hbuf
        · rw [textOf_cons] at hlength
          simp only [List.length_append] at hlength
          omega

/-! ## Pieces -/

theorem At.insert {data : Bytes}
    (h : At o cut (data ++ u) p ms) : At o cut u (insert p data) ms := by
  have hsound : ∀ {p}, Sound o (data ++ u) p → Sound o u (Httpstream.insert p data) := by
    intro p h
    have hroom := h.room
    rw [List.length_append] at hroom
    exact ⟨h.error, by simp only [Httpstream.insert]; omega⟩
  have hconcat : ∀ p, (Httpstream.insert p data).buf.concat = p.buf.concat ++ data :=
    fun p => concat_insert p.buf data
  have hmore : ∀ p, p.buflen ≤ (Httpstream.insert p data).buflen := fun p => Nat.le_add_right _ _
  cases h with
  | between h hstate hsize hstart hbuf hlen =>
    refine .between (hsound h) hstate hsize hstart ?_ ?_
    · rw [hconcat, List.append_assoc]
      exact hbuf
    · rw [hconcat, List.length_append]
      exact Nat.add_le_add_right hlen _
  | body h hne =>
    refine .body { hsound h.toSound with
      state := h.state
      chunked := h.chunked
      len := h.len
      buf := ?_
      buflen := ?_
      size := h.size
      start := h.start
      upgrade := h.upgrade } hne
    · rw [hconcat, List.append_assoc]
      exact h.buf
    · rw [hconcat, List.length_append, ← h.buflen]
      rfl
  | chunks h =>
    refine .chunks { hsound h.toSound with
      state := h.state
      body := h.body
      chunked := h.chunked
      buf := ?_
      buflen := ?_
      remembers := ?_
      only := h.only
      cuts := h.cuts
      chunksValid := h.chunksValid
      lastValid := h.lastValid }
    · rw [hconcat, List.append_assoc]
      exact h.buf
    · rw [hconcat, List.length_append, ← h.buflen]
      rfl
    · cases h.remembers with
      | nothing hsize hstart => exact .nothing hsize hstart
      | chunk hsize hstart hlen => exact .chunk hsize hstart (hlen.trans (hmore _))
      | last hsize hstart hlen hcut hafter htail =>
        exact .last hsize hstart (hlen.trans (hmore _)) hcut hafter htail

theorem At.ended_of_empty
    (h : At o cut u p ms) (hempty : p.buflen = 0) : ended u.length ms = [] := by
  cases h with
  | between h hstate hsize hstart hbuf hlen =>
    cases ms with
    | nil => rfl
    | cons m ms =>
      have hlength := congrArg List.length hbuf
      rw [textOf_cons] at hlength
      simp only [List.length_append, Message.head, crlf, List.length_cons,
        List.length_nil] at hlength
      exact ended_of_lt (by omega)
  | body h hne =>
    have hlength := congrArg List.length h.buf
    have hbuflen := h.buflen
    have hpos := List.length_pos_iff.mpr hne
    simp only [List.length_append] at hlength
    exact ended_of_lt (by omega)
  | chunks h =>
    have hlength := congrArg List.length h.buf
    have hbuflen := h.buflen
    simp only [List.length_append, Last.text, crlf, List.length_cons, List.length_nil] at hlength
    exact ended_of_lt (by omega)

theorem loops_at {L : Lua} (ho : o.client = true) (hL : L.ReadsDecimals o.bodylimit)
    (hcut : cut u.length) {calls : List Call}
    {out : Parser × List Call × Bool} (h : Loops L o log p calls out)
    (hs : Stream o cut ms) (hat : At o cut u p ms) :
    out.2 = (calls ++ (ended u.length ms).map fun m => Call.success m.packet, false) ∧
      ∃ left, ms = ended u.length ms ++ left ∧ ended u.length left = [] ∧ Stream o cut left ∧
        At o cut u out.1 left := by
  induction h generalizing ms with
  | empty hempty =>
    have hnone := hat.ended_of_empty hempty
    rw [hnone]
    exact ⟨by simp, ms, rfl, hnone, hs, hat⟩
  | stop hne hturn =>
    have hstep := turn_at ho hL hcut hs hat
    rw [hturn] at hstep
    cases hstep with
    | stop h hstuck =>
      rw [hstuck]
      exact ⟨by simp, ms, rfl, hstuck, hs, h⟩
  | raise hne hturn =>
    have hstep := turn_at ho hL hcut hs hat
    rw [hturn] at hstep
    cases hstep
  | next hne hturn rest ih =>
    have hstep := turn_at ho hL hcut hs hat
    rw [hturn] at hstep
    cases hstep with
    | next h => exact ih hs h
  | raised hne hturn hc => cases hc
  | failure hne hturn hc =>
    have hstep := turn_at ho hL hcut hs hat
    rw [hturn] at hstep
    cases hstep
  | success hne hturn hc rest ih =>
    have hstep := turn_at ho hL hcut hs hat
    rw [hturn] at hstep
    cases hstep with
    | @call m ms p' h hend =>
      obtain ⟨hcalls, left, hms, hleft⟩ := ih hs.tail h
      rw [ended, if_pos hend]
      refine ⟨?_, left, by rw [List.cons_append, ← hms], hleft⟩
      rw [hcalls, log]
      simp

theorem ended_append {n k : ℕ} (hk : k ≤ n) {left : List Message} (h : ms = ended n ms ++ left) :
    ended k ms = ended n ms ++ ended k left := by
  induction ms with
  | nil =>
    obtain rfl : left = [] := h.symm
    rfl
  | cons m ms ih =>
    rw [ended] at h ⊢
    by_cases hn : n ≤ (textOf ms).length
    · rw [if_pos (hk.trans hn), ended, if_pos hn]
      rw [if_pos hn, List.cons_append, List.cons_inj_right] at h
      rw [ih h, List.cons_append]
    · rw [if_neg hn, List.nil_append] at h
      rw [ended, if_neg hn, List.nil_append, ← h, ended]

theorem feeds_at {L : Lua} (ho : o.client = true) (hL : L.ReadsDecimals o.bodylimit)
    {xs : List Bytes} (hcut : ∀ ys zs, xs = ys ++ zs → cut (zs.flatten ++ u).length)
    (hs : Stream o cut ms) (hat : At o cut (xs.flatten ++ u) p ms)
    (hstuck : ended (xs.flatten ++ u).length ms = []) (calls : List Call) :
    (xs.foldl (feedOne L o) (p, calls, false)).2 =
      (calls ++ (ended u.length ms).map fun m => Call.success m.packet, false) := by
  induction xs generalizing p ms calls with
  | nil =>
    rw [List.flatten_nil, List.nil_append] at hstuck
    simp [hstuck]
  | cons data xs ih =>
    rw [List.flatten_cons, List.append_assoc] at hat
    have hin := hat.insert
    have hsound : p.error = false ∧ (insert p data).buflen ≤ o.buflimit := by
      cases hin with
      | between h => exact ⟨h.error, (Nat.le_add_right _ _).trans h.room⟩
      | body h => exact ⟨h.error, (Nat.le_add_right _ _).trans h.room⟩
      | chunks h => exact ⟨h.error, (Nat.le_add_right _ _).trans h.room⟩
    obtain ⟨⟨p', calls', raised⟩, hfeed, hloops⟩ :=
      feed_loops L o log hsound.1 (s := calls) hsound.2
    obtain ⟨hout, left, hms, hleft, hsleft, hatleft⟩ :=
      loops_at ho hL (hcut [data] xs rfl) hloops hs hin
    have hone : feedOne L o (p, calls, false) data = (p', calls', raised) := by
      rw [feedOne, hfeed]
      rfl
    obtain ⟨rfl, rfl⟩ := Prod.mk.inj hout
    have hrest := ih (fun ys zs h => hcut (data :: ys) zs (by rw [h]; rfl)) hsleft hatleft hleft
      (calls ++ (ended (xs.flatten ++ u).length ms).map fun m => Call.success m.packet)
    have hended := ended_append (k := u.length) (by simp) hms
    rw [List.foldl_cons, hone, hrest, hended]
    simp

theorem new_at (h : (textOf ms).length ≤ o.buflimit) : At o cut (textOf ms) new ms :=
  .between ⟨rfl, by simpa [new] using h⟩ rfl rfl (.inl rfl) rfl (Nat.le_refl _)

theorem ended_all (ms : List Message) : ended (textOf ms).length ms = [] := by
  cases ms with
  | nil => rfl
  | cons m ms =>
    refine ended_of_lt ?_
    simp only [textOf_cons, List.length_append, Message.head, crlf, List.length_cons,
      List.length_nil]
    omega

/-- However a stream of responses is cut, among the ways the parser copes with: when pieces of it have
been fed, exactly those responses have been told of that are complete, and nothing else has. -/
theorem responses_in_pieces (L : Lua) (o : Options) (hL : L.ReadsDecimals o.bodylimit)
    {messages : List Message} (hvalid : ∀ m ∈ messages, m.Valid (clientOptions o))
    (hlimit : (textOf messages).length ≤ o.buflimit) {xs ys : List Bytes}
    (hpieces : (xs ++ ys).flatten = textOf messages) (hcopes : Copes (Cut (xs ++ ys)) messages) :
    (feedAll L (clientOptions o) xs).2 =
      ((ended ys.flatten.length messages).map fun m => .success m.packet, false) := by
  rw [List.flatten_append] at hpieces
  have hat : At (clientOptions o) (Cut (xs ++ ys)) (xs.flatten ++ ys.flatten) new messages := by
    rw [hpieces]
    exact new_at hlimit
  have hstuck : ended (xs.flatten ++ ys.flatten).length messages = [] := by
    rw [hpieces]
    exact ended_all messages
  refine feeds_at (o := clientOptions o) rfl hL (fun before rest h => ?_) ⟨hvalid, hcopes⟩ hat hstuck []
  exact ⟨before, rest ++ ys, by rw [h, List.append_assoc], by rw [List.flatten_append]⟩

/-! ## A chunked response -/

/-- Numbers in decimal digits, perhaps with space around them. -/
def trimmingLua : Lua where
  tonumber s :=
    if trim s ≠ [] ∧ (trim s).all Char.isDigit then some (.int (decimal (trim s))) else none
  urlParse _ := none

theorem trimmingLua_readsDecimals (limit : ℕ) : trimmingLua.ReadsDecimals limit := by
  intro s n h _
  have hdigits : trim s ≠ [] ∧ (trim s).all Char.isDigit := ⟨h.ne_nil, List.all_eq_true.mpr h.digits⟩
  simp only [trimmingLua, if_pos hdigits, h.value]

def fetchOptions : Options := ⟨false, none, 1000, 2000⟩

def greeting : Message where
  hundreds := '2'
  tens := '0'
  ones := '0'
  reason := "OK".toList
  headers := [⟨"Transfer-Encoding".toList, 1, "chunked".toList⟩]
  framing := .chunked [⟨['5'], [], "hello".toList⟩] ⟨['0'], [], []⟩

theorem greeting_valid : greeting.Valid (clientOptions fetchOptions) where
  digits := by decide
  reason := by simp [greeting]
  headers h hh := by
    obtain rfl := List.mem_singleton.mp hh
    exact ⟨by simp, by simp [isSpace], by simp, by simp⟩
  framed := by
    refine ⟨?_, by decide +kernel, ⟨"chunked".toList, by decide +kernel, by decide +kernel⟩, ?_, ?_⟩
    · rintro (h | h | h | ⟨-, h⟩)
      · cases h
      · exact absurd h (by decide)
      · exact absurd h (by decide)
      · exact absurd h (by decide)
    · intro c hc
      obtain rfl := List.mem_singleton.mp hc
      exact ⟨⟨by simp, by simp [Char.isHexDigit], by decide +kernel, by simp, by simp⟩, by simp⟩
    · exact ⟨⟨by simp, by simp [Char.isHexDigit], by decide, by simp, by simp⟩, List.forall_mem_nil _⟩

theorem cut_iff {pieces : List Bytes} {n : ℕ} :
    Cut pieces n ↔ n ∈ pieces.tails.map fun ys => ys.flatten.length := by
  simp only [Cut, List.mem_map, List.mem_tails]
  constructor
  · rintro ⟨xs, ys, rfl, rfl⟩
    exact ⟨ys, List.suffix_append xs ys, rfl⟩
  · rintro ⟨ys, ⟨xs, rfl⟩, rfl⟩
    exact ⟨xs, ys, rfl, rfl⟩

theorem responses_in_pieces_greeting :
    (feedAll trimmingLua (clientOptions fetchOptions)
      [greeting.text.take 50, greeting.text.drop 50]).2 =
      ((ended 0 [greeting]).map fun m => .success m.packet, false) := by
  refine @responses_in_pieces trimmingLua fetchOptions (trimmingLua_readsDecimals _) _ ?_
    (by decide +kernel) _ [] ?_ ?_
  · intro m hm
    obtain rfl := List.mem_singleton.mp hm
    exact greeting_valid
  · simp [textOf]
  · refine ⟨fun h => absurd h (by decide), fun h => absurd h (by decide), ?_, trivial⟩
    intro chunks last hf
    obtain ⟨rfl, rfl⟩ := Framing.chunked.inj hf
    refine ⟨by decide +kernel, by simp, fun n hn hpos hle => ?_⟩
    have hfar : ∀ n ∈ [greeting.text.take 50, greeting.text.drop 50].tails.map
        (fun ys => ys.flatten.length), ¬ (0 < n ∧ n ≤ 2) := by decide +kernel
    exact absurd ⟨hpos, hle⟩ (hfar n (cut_iff.mp hn))

/-- A response whose blank line comes by itself is not told of. -/
theorem last_blank_line_alone :
    greeting.Valid (clientOptions fetchOptions) ∧
      [greeting.text.dropLast.dropLast, crlf].flatten = textOf [greeting] ∧
      (textOf [greeting]).length ≤ fetchOptions.buflimit ∧
      (feedAll trimmingLua (clientOptions fetchOptions)
        [greeting.text.dropLast.dropLast, crlf]).2.1 ≠
        (ended 0 [greeting]).map fun m => .success m.packet := by
  refine ⟨greeting_valid, by decide +kernel, by decide +kernel, fun h => ?_⟩
  have hlength := congrArg List.length h
  revert hlength
  decide +kernel

end Prosody.Httpstream
