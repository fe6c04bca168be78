import Mathlib.Data.String.Basic
import Prosody.Http.Server

/-! # The order of pipelined responses

What a request or an answer does to a connection is said once, by `Begins` and `Settled`. A connection
that is handed no request while a response is unfinished goes through the phases of `Phase`. -/

namespace Prosody.Http.Server

/-! ## Primitives -/

@[simp] theorem write_waiting (c : Conn) (s : String) : (write c s).waiting = c.waiting := by
  unfold write
  split <;> rfl

@[simp] theorem write_pending (c : Conn) (s : String) : (write c s).pending = c.pending := by
  unfold write
  split <;> rfl

@[simp] theorem write_session (c : Conn) (s : String) : (write c s).session = c.session := by
  unfold write
  split <;> rfl

@[simp] theorem write_parsed (c : Conn) (s : String) : (write c s).parsed = c.parsed := by
  unfold write
  split <;> rfl

@[simp] theorem write_link (c : Conn) (s : String) : (write c s).link = c.link := by
  unfold write
  split <;> rfl

@[simp] theorem write_incomplete (c : Conn) (s : String) :
    (write c s).incomplete = c.incomplete := by
  unfold write
  split <;> rfl

@[simp] theorem write_responses (c : Conn) (s : String) : (write c s).responses = c.responses := by
  unfold write
  split <;> rfl

variable {c : Conn}

theorem write_of_open (h : c.link = .open) (s : String) : (write c s).written = c.written ++ s := by
  rw [write, if_pos h]

theorem write_of_not_open (h : c.link ≠ .open) (s : String) : write c s = c :=
  if_neg h

@[simp] theorem close_waiting (c : Conn) : (close c).waiting = c.waiting := by
  unfold close ondisconnect
  split
  · rfl
  · split <;> rfl

@[simp] theorem close_pending (c : Conn) : (close c).pending = c.pending := by
  unfold close ondisconnect
  split
  · rfl
  · split <;> rfl

@[simp] theorem close_parsed (c : Conn) : (close c).parsed = c.parsed := by
  unfold close ondisconnect
  split
  · rfl
  · split <;> rfl

@[simp] theorem close_responses (c : Conn) : (close c).responses = c.responses := by
  unfold close ondisconnect
  split
  · rfl
  · split <;> rfl

@[simp] theorem close_written (c : Conn) : (close c).written = c.written := by
  unfold close ondisconnect
  split
  · rfl
  · split <;> rfl

theorem close_session (h : (close c).session = true) : c.session = true := by
  unfold close ondisconnect at h
  split at h
  · exact h
  · split at h
    · exact h
    · cases h

theorem close_link (c : Conn) : (close c).link ≠ .open := by
  unfold close
  split
  · rename_i hgone
    simp [hgone]
  · split <;> simp

theorem putResponse_putResponse (c : Conn) (n : ℕ) (r r' : Response) :
    putResponse (putResponse c n r) n r' = putResponse c n r' := by
  unfold putResponse
  simp

/-! ## What a response is answered with -/

/-- `finishCb` does nothing to a connection with the flag and the requests of this one. -/
def Idle (finishCb : Conn → Conn) (c : Conn) : Prop :=
  ∀ c' : Conn, c'.waiting = c.waiting → c'.session = c.session → c'.pending = c.pending →
    finishCb c' = c'

theorem idle_of_waiting (env : Env) (react : String → Reaction) (depth : ℕ)
    (h : c.waiting = true) : Idle (processNext env react depth) c := by
  intro c' hwaiting _ _
  cases depth with
  | zero => rfl
  | succ depth => rw [processNext, if_pos (hwaiting.trans h)]

theorem idle_of_no_pending (env : Env) (react : String → Reaction) (depth : ℕ)
    (hwaiting : c.waiting = false) (hpending : c.session = true → c.pending = []) :
    Idle (processNext env react depth) c := by
  intro c' hwaiting' hsession' hpending'
  cases depth with
  | zero => rfl
  | succ depth =>
    rw [processNext, if_neg (by simp [hwaiting', hwaiting])]
    have hloop : ∀ fuel, processLoop env react (processNext env react depth) fuel
        { c' with waiting := true } = { c' with waiting := true } := by
      intro fuel
      cases fuel with
      | zero => rfl
      | succ fuel =>
        unfold processLoop
        cases hsession : c.session with
        | false => simp [hsession', hsession]
        | true => simp [hpending', hpending hsession]
    simp only [hloop]
    rw [← hwaiting, ← hwaiting']

/-- A response is finished, and its connection is kept only if it is persistent. -/
def settle (c : Conn) (n : ℕ) (r : Response) : Conn :=
  if r.persistent then putResponse c n { r with finished := true }
  else close (putResponse c n { r with finished := true })

variable {finishCb : Conn → Conn} {r : Response}

theorem finishResponse_eq (hidle : Idle finishCb c) (n : ℕ)
    (hr : r.finished = false) : finishResponse finishCb c n r = settle c n r := by
  unfold finishResponse settle
  rw [if_neg (by simp [hr])]
  split
  · exact hidle _ rfl rfl rfl
  · rfl

/-- A response that is answered with a whole text. -/
structure Whole (r r' : Response) (text : String) : Prop where
  request : r'.request = r.request
  persistent : r'.persistent = r.persistent
  finished : r'.finished = false
  answer : r'.answer = some (.whole text)

theorem sendResponse_eq (env : Env) (hidle : Idle finishCb c)
    (n : ℕ) (hr : r.finished = false) (body : Option String) : ∃ r' text, Whole r r' text ∧
      sendResponse env finishCb c n r body = settle (write (putResponse c n r') text) n r' := by
  unfold sendResponse
  rw [if_neg (by simp [hr])]
  refine ⟨_, _, ?_, finishResponse_eq ?_ n ?_⟩
  · exact ⟨rfl, rfl, hr, rfl⟩
  · intro c' hwaiting hsession hpending
    exact hidle c' (hwaiting.trans (write_waiting _ _)) (hsession.trans (write_session _ _))
      (hpending.trans (write_pending _ _))
  · exact hr

theorem sendError_eq (env : Env) (hidle : Idle finishCb c)
    (n : ℕ) (hr : r.finished = false) (code : ℕ) : ∃ r' text, Whole r r' text ∧
      sendError env finishCb c n r code = settle (write (putResponse c n r') text) n r' := by
  obtain ⟨r', text, hwhole, heq⟩ := sendResponse_eq env hidle n
    (r := { r with content := (env.httpError code { r.content with statusCode := code }).1 }) hr
    (env.httpError code { r.content with statusCode := code }).2
  exact ⟨r', text, ⟨hwhole.request, hwhole.persistent, hwhole.finished, hwhole.answer⟩, heq⟩

theorem sendResult_eq (env : Env) (hidle : Idle finishCb c)
    (n : ℕ) (hr : r.finished = false) (result : Result) : ∃ r' text, Whole r r' text ∧
      sendResult env finishCb c n r result = settle (write (putResponse c n r') text) n r' := by
  cases result with
  | number code =>
    rw [sendResult]
    split
    · exact sendError_eq env hidle n hr code
    · obtain ⟨r', text, hwhole, heq⟩ := sendResponse_eq env hidle n
        (r := { r with content := { r.content with statusCode := code } }) hr none
      exact ⟨r', text, ⟨hwhole.request, hwhole.persistent, hwhole.finished, hwhole.answer⟩, heq⟩
  | string body => exact sendResponse_eq env hidle n hr (some body)
  | table f =>
    obtain ⟨r', text, hwhole, heq⟩ := sendResponse_eq env hidle n
      (r := { r with content := f r.content }) hr none
    exact ⟨r', text, ⟨hwhole.request, hwhole.persistent, hwhole.finished, hwhole.answer⟩, heq⟩
  | no => exact sendResponse_eq env hidle n hr none

structure Filed (r r' : Response) (header : String) (chunked : Bool) (file : File) : Prop where
  request : r'.request = r.request
  persistent : r'.persistent = r.persistent
  finished : r'.finished = false
  sendMore : r'.sendMore = some ⟨chunked, file⟩
  answer : r'.answer = some (.file header chunked file)

theorem sendFile_eq (env : Env) (c : Conn) (n : ℕ) (hr : r.finished = false) (file : File) :
    ∃ r' header chunked, Filed r r' header chunked file ∧
      sendFile env c n r file = write { putResponse c n r' with incomplete := some n } header := by
  unfold sendFile
  rw [if_neg (by simp [hr])]
  refine ⟨_, _, (r.content.headers.get "content_length").isNone, ?_, rfl⟩
  exact ⟨rfl, rfl, hr, rfl, rfl⟩

/-! ## What a request begins with -/

inductive Begins (c : Conn) (n : ℕ) (r : Response) : Conn → Prop
  | answered {r' : Response} {text : String} (h : Whole r r' text) :
      Begins c n r (settle (write (putResponse c n r') text) n r')
  | streamed {r' : Response} {header : String} {chunked : Bool} {file : File}
      (h : Filed r r' header chunked file) :
      Begins c n r (write { putResponse c n r' with incomplete := some n } header)
  | deferred : Begins c n r (putResponse c n r)
  | failed {r' : Response} {text : String} (h : Whole r r' text) :
      Begins c n r (close (write (putResponse c n r') text))

variable {d : Conn} {n : ℕ}

theorem Begins.of_put {r₀ : Response} (h : Begins (putResponse c n r₀) n r d) : Begins c n r d := by
  cases h with
  | answered h =>
    rw [putResponse_putResponse]
    exact .answered h
  | streamed h =>
    rw [putResponse_putResponse]
    exact .streamed h
  | deferred =>
    rw [putResponse_putResponse]
    exact .deferred
  | failed h =>
    rw [putResponse_putResponse]
    exact .failed h

theorem conclude_begins (env : Env) (hidle : Idle finishCb c)
    (n : ℕ) (hr : r.finished = false) (hput : putResponse c n r = c) (reaction : Reaction) :
    (conclude env finishCb c n r reaction).2 = true ∧
        Begins c n r (conclude env finishCb c n r reaction).1 ∨
      conclude env finishCb c n r reaction = (c, false) := by
  cases reaction with
  | unhandled =>
    obtain ⟨r', text, hwhole, heq⟩ := sendError_eq env hidle n hr 404
    refine .inl ⟨rfl, ?_⟩
    change Begins c n r (sendError env finishCb c n r 404)
    rw [heq]
    exact .answered hwhole
  | result result =>
    obtain ⟨r', text, hwhole, heq⟩ := sendResult_eq env hidle n hr result
    refine .inl ⟨rfl, ?_⟩
    change Begins c n r (sendResult env finishCb c n r result)
    rw [heq]
    exact .answered hwhole
  | later =>
    refine .inl ⟨rfl, ?_⟩
    change Begins c n r c
    nth_rewrite 2 [← hput]
    exact .deferred
  | send f body =>
    obtain ⟨r', text, hwhole, heq⟩ := sendResponse_eq env hidle n
      (r := { r with content := f r.content }) hr body
    refine .inl ⟨rfl, ?_⟩
    change Begins c n r (sendResponse env finishCb c n { r with content := f r.content } body)
    rw [heq]
    exact .answered ⟨hwhole.request, hwhole.persistent, hwhole.finished, hwhole.answer⟩
  | sendFile f file =>
    obtain ⟨r', header, chunked, hfiled, heq⟩ := sendFile_eq env c n
      (r := { r with content := f r.content }) hr file
    refine .inl ⟨rfl, ?_⟩
    change Begins c n r (Server.sendFile env c n { r with content := f r.content } file)
    rw [heq]
    exact .streamed
      ⟨hfiled.request, hfiled.persistent, hfiled.finished, hfiled.sendMore, hfiled.answer⟩
  | raise => exact .inr rfl

theorem handleRequest_begins (env : Env) (react : String → Reaction)
    (hidle : Idle finishCb c) (n : ℕ) (request : Request) :
    (handleRequest env react finishCb c n request).2 = true ∧
        Begins c n (newResponse env request) (handleRequest env react finishCb c n request).1 ∨
      handleRequest env react finishCb c n request =
        (putResponse c n (newResponse env request), false) := by
  have hidle' : Idle finishCb (putResponse c n (newResponse env request)) := hidle
  have hput := putResponse_putResponse c n (newResponse env request) (newResponse env request)
  have herror : ∀ code, Begins c n (newResponse env request)
      (sendError env finishCb (putResponse c n (newResponse env request)) n
        (newResponse env request) code) := by
    intro code
    obtain ⟨r', text, hwhole, heq⟩ := sendError_eq env hidle' n (r := newResponse env request) rfl code
    rw [heq]
    exact Begins.of_put (.answered hwhole)
  have hconclude := fun reaction => conclude_begins env hidle' n
    (r := newResponse env request) rfl hput reaction
  have hresult : ∀ reaction,
      (conclude env finishCb (putResponse c n (newResponse env request)) n
          (newResponse env request) reaction).2 = true ∧
        Begins c n (newResponse env request)
          (conclude env finishCb (putResponse c n (newResponse env request)) n
            (newResponse env request) reaction).1 ∨
      conclude env finishCb (putResponse c n (newResponse env request)) n
        (newResponse env request) reaction = (putResponse c n (newResponse env request), false) :=
    fun reaction => (hconclude reaction).imp_left (And.imp_right Begins.of_put)
  unfold handleRequest
  cases request.path with
  | none => exact .inl ⟨rfl, herror 400⟩
  | some path =>
    simp only
    cases react (request.method ++ " " ++ barePath path) with
    | unhandled =>
      simp only
      cases resolveHost env request.host with
      | error code => exact .inl ⟨rfl, herror code⟩
      | ok host => exact hresult _
    | result r => exact hresult _
    | later => exact hresult _
    | send f body => exact hresult _
    | sendFile f file => exact hresult _
    | raise => exact hresult _

theorem processOne_begins (env : Env) (react : String → Reaction)
    (hidle : Idle finishCb c) (n : ℕ) (request : Request) :
    Begins c n (newResponse env request) (processOne env react finishCb c n request) := by
  unfold processOne
  rcases handleRequest_begins env react hidle n request with ⟨hok, hbegins⟩ | heq
  · simp only [hok, if_true]
    exact hbegins
  · rw [heq]
    simp only [Bool.false_eq_true, if_false, putResponse_putResponse]
    exact .failed ⟨rfl, rfl, rfl, rfl⟩

/-! ## What changes -/

/-- One connection differs from another in one response, and in nothing that closing forbids. -/
structure Touches (c d : Conn) (n : ℕ) (r : Response) : Prop where
  waiting : d.waiting = c.waiting
  pending : d.pending = c.pending
  session : d.session = true → c.session = true
  parsed : d.parsed = c.parsed
  responses : d.responses = c.responses.set n (some r)
  quiet : c.link ≠ .open → d.link ≠ .open ∧ d.written = c.written

theorem touches_put (c : Conn) (n : ℕ) (r : Response) : Touches c (putResponse c n r) n r :=
  ⟨rfl, rfl, id, rfl, rfl, fun h => ⟨h, rfl⟩⟩

theorem Touches.write (h : Touches c d n r) (s : String) : Touches c (write d s) n r where
  waiting := (write_waiting d s).trans h.waiting
  pending := (write_pending d s).trans h.pending
  session hsession := h.session ((write_session d s).symm.trans hsession)
  parsed := (write_parsed d s).trans h.parsed
  responses := (write_responses d s).trans h.responses
  quiet hlink := by
    rw [write_of_not_open (h.quiet hlink).1]
    exact h.quiet hlink

theorem Touches.incomplete (h : Touches c d n r)
    (i : Option ℕ) : Touches c { d with incomplete := i } n r :=
  ⟨h.waiting, h.pending, h.session, h.parsed, h.responses, h.quiet⟩

theorem Touches.close (h : Touches c d n r) : Touches c (close d) n r where
  waiting := (close_waiting d).trans h.waiting
  pending := (close_pending d).trans h.pending
  session hsession := h.session (close_session hsession)
  parsed := (close_parsed d).trans h.parsed
  responses := (close_responses d).trans h.responses
  quiet hlink := ⟨close_link d, (close_written d).trans (h.quiet hlink).2⟩

theorem Touches.put (h : Touches c d n r) (r' : Response) :
    Touches c (putResponse d n r') n r' where
  waiting := h.waiting
  pending := h.pending
  session := h.session
  parsed := h.parsed
  responses := by
    change d.responses.set n (some r') = _
    rw [h.responses, Table.set_set]
  quiet := h.quiet

theorem Touches.settle (h : Touches c d n r) :
    Touches c (settle d n r) n { r with finished := true } := by
  unfold Server.settle
  split
  · exact h.put _
  · exact (h.put _).close

theorem Begins.touches (h : Begins c n r d) :
    ∃ r', Touches c d n r' ∧ r'.request = r.request ∧ r'.persistent = r.persistent := by
  cases h with
  | answered hwhole =>
    exact ⟨_, ((touches_put c n _).write _).settle, hwhole.request, hwhole.persistent⟩
  | streamed hfiled =>
    exact ⟨_, ((touches_put c n _).incomplete _).write _, hfiled.request, hfiled.persistent⟩
  | deferred => exact ⟨_, touches_put c n r, rfl, rfl⟩
  | failed hwhole =>
    exact ⟨_, ((touches_put c n _).write _).close, hwhole.request, hwhole.persistent⟩

/-- What holds between two events whatever has been written. -/
structure Sound (c : Conn) : Prop where
  waiting : c.waiting = false
  pending : c.session = true → c.pending = []
  response : ∀ n r, c.responses.get n = some r →
    n < c.parsed ∧ r.persistent = r.request.persistent

theorem Sound.touch (h : Sound c) (ht : Touches c d n r)
    (hn : n < c.parsed) (hr : r.persistent = r.request.persistent) : Sound d where
  waiting := ht.waiting.trans h.waiting
  pending hsession := ht.pending.trans (h.pending (ht.session hsession))
  response i r' hr' := by
    rw [ht.responses, Table.get_set] at hr'
    rw [ht.parsed]
    split at hr'
    · rename_i heq
      obtain rfl := Option.some.inj hr'
      exact ⟨heq ▸ hn, hr⟩
    · exact h.response i r' hr'

/-! ## Handing over a request -/

/-- The loop of a connection has ended. -/
def resume (c : Conn) : Conn := { c with waiting := false }

theorem resume_write (c : Conn) (s : String) : resume (write c s) = write (resume c) s := by
  unfold write resume
  split <;> rfl

theorem resume_close (c : Conn) : resume (close c) = close (resume c) := by
  unfold close resume ondisconnect
  split
  · rfl
  · split <;> rfl

theorem resume_settle (c : Conn) (n : ℕ) (r : Response) :
    resume (settle c n r) = settle (resume c) n r := by
  unfold settle
  split
  · rfl
  · exact resume_close _

theorem Begins.resume (h : Begins c n r d) : Begins (resume c) n r (resume d) := by
  cases h with
  | answered hwhole =>
    rw [resume_settle, resume_write]
    exact .answered hwhole
  | streamed hfiled =>
    rw [resume_write]
    exact .streamed hfiled
  | deferred => exact .deferred
  | failed hwhole =>
    rw [resume_close, resume_write]
    exact .failed hwhole

/-- The loop has taken the request that has just been parsed. -/
def taken (c : Conn) : Conn :=
  { c with pending := [], parsed := c.parsed + 1, waiting := true }

theorem resume_taken (h : Sound c) (hsession : c.session = true) :
    resume (taken c) = { c with parsed := c.parsed + 1 } := by
  unfold resume taken
  rw [← h.pending hsession, ← h.waiting]

theorem processLoop_singleton (env : Env) (react : String → Reaction) (finishCb : Conn → Conn)
    {request : Request} (hsession : c.session = true) (hpending : c.pending = [(n, request)]) :
    processLoop env react finishCb 1 c =
      processOne env react finishCb { c with pending := [] } n request := by
  rw [processLoop, hsession, hpending]
  rfl

theorem successCb_begins (env : Env) (react : String → Reaction) (h : Sound c)
    (hsession : c.session = true) (request : Request) :
    ∃ d, successCb env react c request = some d ∧
      Begins { c with parsed := c.parsed + 1 } c.parsed (newResponse env request) d := by
  refine ⟨resume (processOne env react (processNext env react 1) (taken c) c.parsed request),
    ?_, ?_⟩
  · rw [successCb, if_neg (by simp [h.waiting]), processNext, if_neg (by simp [h.waiting]),
      h.pending hsession]
    have hloop := processLoop_singleton env react (processNext env react 1) (n := c.parsed)
      (c := { taken c with pending := [(c.parsed, request)] }) hsession rfl
    exact congrArg (fun d => some (resume d)) hloop
  · rw [← resume_taken h hsession]
    exact (processOne_begins env react (idle_of_waiting env react 1 rfl) c.parsed request).resume

theorem successCb_ignored (env : Env) (react : String → Reaction) (h : Sound c)
    (hsession : c.session = false) (request : Request) : successCb env react c request = some
      { c with pending := c.pending ++ [(c.parsed, request)], parsed := c.parsed + 1 } := by
  rw [successCb, if_neg (by simp [h.waiting]), processNext, if_neg (by simp [h.waiting])]
  simp only [List.length_append, List.length_singleton, processLoop, hsession]
  rw [← h.waiting]

/-! ## What has been written -/

def Conn.texts (c : Conn) (k : ℕ) : String := String.join ((List.range k).map c.text)

theorem Conn.texts_succ (c : Conn) (k : ℕ) : c.texts (k + 1) = c.texts k ++ c.text k := by
  rw [texts, List.range_succ, List.map_append, String.join_append, texts]
  simp

theorem text_congr (h : d.responses.get n = c.responses.get n) : d.text n = c.text n := by
  rw [Conn.text, h, Conn.text]

theorem texts_congr {k : ℕ} (h : ∀ i < k, d.text i = c.text i) : d.texts k = c.texts k := by
  unfold Conn.texts
  exact congrArg _ (List.map_congr_left fun i hi => h i (List.mem_range.mp hi))

variable {a : Answer}

theorem text_of_answer
    (h : c.responses.get n = some r) (ha : r.answer = some a) : c.text n = a.text := by
  rw [Conn.text, h, Option.bind_some, ha]
  rfl

theorem text_of_unanswered (h : ¬ c.answered n) : c.text n = "" := by
  unfold Conn.text
  cases hget : c.responses.get n with
  | none => rfl
  | some r =>
    cases ha : r.answer with
    | none => simp [ha]
    | some a => exact absurd ⟨r, hget, by simp [ha]⟩ h

/-- Every response before the `k`-th is complete, and of that one a part has been written. -/
structure Upto (c : Conn) (k : ℕ) (part rest : String) : Prop where
  written : c.written = c.texts k ++ part
  split : part ++ rest = c.text k
  done : ∀ i < k, ∃ r, c.responses.get i = some r ∧ r.finished = true ∧ r.answer.isSome ∧
    r.request.persistent = true

theorem Upto.inOrder {k : ℕ} {part rest : String} (h : Upto c k part rest) : InOrder c := by
  refine ⟨k, part, rest, h.written, h.split, fun i hi => ?_⟩
  obtain ⟨r, hr, -, hanswer, hpersistent⟩ := h.done i hi
  exact ⟨⟨r, hr, hanswer⟩, .inl ⟨r, hr, hpersistent⟩⟩

theorem InOrder.congr (h : InOrder c) (hwritten : d.written = c.written)
    (hresponses : d.responses = c.responses) : InOrder d := by
  have htext : d.text = c.text := by
    funext n
    exact text_congr (by rw [hresponses])
  obtain ⟨k, part, rest, hw, hsplit, hall⟩ := h
  refine ⟨k, part, rest, ?_, ?_, fun i hi => ?_⟩
  · rw [hwritten, hw, htext]
  · rw [hsplit, htext]
  · rw [Conn.answered, hresponses]
    exact hall i hi

theorem InOrder.touch (h : InOrder c) (ht : Touches c d n r) (hlink : c.link ≠ .open)
    (hold : ∀ old, c.responses.get n = some old → old.answer.isSome →
      r.answer = old.answer ∧ r.request = old.request) : InOrder d := by
  obtain ⟨k, part, rest, hw, hsplit, hall⟩ := h
  have hget : ∀ i, d.responses.get i = if i = n then some r else c.responses.get i := by
    intro i
    rw [ht.responses, Table.get_set]
  have hkept : ∀ i old, c.responses.get i = some old → old.answer.isSome →
      ∃ new, d.responses.get i = some new ∧ new.answer = old.answer ∧
        new.request = old.request := by
    intro i old hi hanswer
    by_cases heq : i = n
    · subst heq
      exact ⟨r, by rw [hget, if_pos rfl], hold old hi hanswer⟩
    · exact ⟨old, by rw [hget, if_neg heq, hi], rfl, rfl⟩
  have htext : ∀ i, c.answered i → d.text i = c.text i := by
    rintro i ⟨old, hi, hanswer⟩
    obtain ⟨new, hnew, hsame, -⟩ := hkept i old hi hanswer
    rw [Conn.text, hnew, Conn.text, hi, Option.bind_some, Option.bind_some, hsame]
  have hwritten : d.written = d.texts k ++ part := by
    rw [(ht.quiet hlink).2, hw, texts_congr fun i hi => htext i (hall i hi).1]
    rfl
  have hpart : ∃ rest', part ++ rest' = d.text k := by
    by_cases hanswered : c.answered k
    · exact ⟨rest, by rw [hsplit, htext k hanswered]⟩
    · rw [text_of_unanswered hanswered, String.append_eq_empty_iff] at hsplit
      exact ⟨d.text k, by rw [hsplit.1, String.empty_append]⟩
  obtain ⟨rest', hsplit'⟩ := hpart
  refine ⟨k, part, rest', hwritten, hsplit', fun i hi => ?_⟩
  obtain ⟨⟨old, hi', hanswer⟩, hlast⟩ := hall i hi
  obtain ⟨new, hnew, hsame, hrequest⟩ := hkept i old hi' hanswer
  refine ⟨⟨new, hnew, by rw [hsame]; exact hanswer⟩, hlast.imp_left ?_⟩
  rintro ⟨old', hold', hpersistent⟩
  obtain rfl := Option.some.inj (hi'.symm.trans hold')
  exact ⟨new, hnew, by rw [hrequest]; exact hpersistent⟩

/-! ## Phases -/

/-- What is still to be written of a file. -/
def Stream.text (stream : Stream) : String :=
  String.join (stream.rest.map fun b => if stream.chunked then chunkText b else b) ++
    if stream.chunked then "0\r\n\r\n" else ""

/-- The phases of a connection that is handed no request while a response is unfinished. -/
inductive Phase (c : Conn) : Prop
  | closed (hlink : c.link ≠ .open) (horder : InOrder c)
  | ready (hlink : c.link = .open) (hsession : c.session = true) (hstream : c.incomplete = none)
      (hupto : Upto c c.parsed "" "")
  | awaiting {k : ℕ} {r : Response} (hlink : c.link = .open) (hsession : c.session = true)
      (hstream : c.incomplete = none) (hparsed : c.parsed = k + 1)
      (hget : c.responses.get k = some r) (hr : r.finished = false) (hanswer : r.answer = none)
      (hupto : Upto c k "" "")
  | streaming {k : ℕ} {r : Response} {stream : Stream} {part : String} (hlink : c.link = .open)
      (hsession : c.session = true) (hstream : c.incomplete = some k) (hparsed : c.parsed = k + 1)
      (hget : c.responses.get k = some r) (hr : r.finished = false)
      (hmore : r.sendMore = some stream) (hanswer : r.answer.isSome)
      (hupto : Upto c k part stream.text)

theorem Phase.inOrder (h : Phase c) : InOrder c := by
  cases h with
  | closed hlink horder => exact horder
  | ready hlink hsession hstream hupto => exact hupto.inOrder
  | awaiting hlink hsession hstream hparsed hget hr hanswer hupto => exact hupto.inOrder
  | streaming hlink hsession hstream hparsed hget hr hmore hanswer hupto => exact hupto.inOrder

/-- A response that is about to be written is the next one. -/
structure Next (c : Conn) (n : ℕ) : Prop where
  link : c.link = .open
  session : c.session = true
  stream : c.incomplete = none
  parsed : c.parsed = n + 1
  written : c.written = c.texts n
  done : ∀ i < n, ∃ r, c.responses.get i = some r ∧ r.finished = true ∧ r.answer.isSome ∧
    r.request.persistent = true

theorem texts_put (c : Conn) (n : ℕ) (r : Response) : (putResponse c n r).texts n = c.texts n := by
  refine texts_congr fun i hi => text_congr ?_
  exact Table.get_set_of_ne _ (by omega) _

theorem Next.put (h : Next c n) (r : Response) : Next (putResponse c n r) n where
  link := h.link
  session := h.session
  stream := h.stream
  parsed := h.parsed
  written := h.written.trans (texts_put c n r).symm
  done i hi := by
    change ∃ r', (c.responses.set n (some r)).get i = some r' ∧ _
    rw [Table.get_set_of_ne _ (by omega : i ≠ n)]
    exact h.done i hi

theorem get_put (c : Conn) (n : ℕ) (r : Response) :
    (putResponse c n r).responses.get n = some r :=
  Table.get_set_self _ _ _

theorem text_put (c : Conn) (n : ℕ) (h : r.answer = some a) : (putResponse c n r).text n = a.text :=
  text_of_answer (get_put c n r) h

theorem texts_succ_put (c : Conn) (n : ℕ) (h : r.answer = some a) :
    (putResponse c n r).texts (n + 1) = c.texts n ++ a.text := by
  rw [Conn.texts_succ, texts_put, text_put c n h]

theorem get_put_of_lt (c : Conn) {i : ℕ} (h : i < n) (r : Response) :
    (putResponse c n r).responses.get i = c.responses.get i :=
  Table.get_set_of_ne _ (by omega) _

theorem text_put_fresh (r : Response) (h : c.responses.get (n + 1) = none) :
    (putResponse c n r).text (n + 1) = "" := by
  refine text_of_unanswered ?_
  rintro ⟨r', hr', -⟩
  change (c.responses.set n _).get (n + 1) = _ at hr'
  rw [Table.get_set_of_ne _ (by omega), h] at hr'
  cases hr'

theorem settle_phase (hlink : c.link = .open)
    (hsession : c.session = true) (hstream : c.incomplete = none) (hparsed : c.parsed = n + 1)
    (ha : r.answer = some a) (hpersistent : r.persistent = r.request.persistent)
    (hwritten : c.written = c.texts n ++ a.text)
    (hdone : ∀ i < n, ∃ r, c.responses.get i = some r ∧ r.finished = true ∧ r.answer.isSome ∧
      r.request.persistent = true)
    (hfresh : c.responses.get (n + 1) = none) : Phase (settle c n r) := by
  have htexts : c.written = (putResponse c n { r with finished := true }).texts (n + 1) ++ "" := by
    rw [texts_succ_put c n (r := { r with finished := true }) ha, String.append_empty, hwritten]
  have hlast : "" ++ "" = (putResponse c n { r with finished := true }).text (n + 1) := by
    rw [text_put_fresh _ hfresh]
    rfl
  unfold settle
  by_cases hkept : r.persistent = true
  · rw [if_pos hkept]
    refine .ready hlink hsession hstream ⟨?_, ?_, ?_⟩
    · exact htexts.trans (by rw [← hparsed]; rfl)
    · exact hlast.trans (by rw [← hparsed]; rfl)
    · intro i hi
      change i < c.parsed at hi
      rcases (by omega : i < n ∨ i = n) with hlt | rfl
      · rw [get_put_of_lt c hlt]
        exact hdone i hlt
      · exact ⟨_, get_put c i _, rfl, by simp [ha], hpersistent.symm.trans hkept⟩
  · rw [if_neg hkept]
    refine .closed (close_link _) (InOrder.congr (c := putResponse c n { r with finished := true })
      ⟨n + 1, "", "", htexts, hlast, fun i hi => ?_⟩ (close_written _) (close_responses _))
    rcases (by omega : i < n ∨ i = n) with hlt | rfl
    · obtain ⟨r', hr', -, hanswer, hpers⟩ := hdone i hlt
      rw [← get_put_of_lt c hlt { r with finished := true }] at hr'
      exact ⟨⟨r', hr', hanswer⟩, .inl ⟨r', hr', hpers⟩⟩
    · exact ⟨⟨_, get_put c i _, by simp [ha]⟩, .inr ⟨rfl, rfl⟩⟩

theorem texts_write (c : Conn) (s : String) (k : ℕ) : (write c s).texts k = c.texts k :=
  texts_congr fun i _ => text_congr (by rw [write_responses])

theorem Next.whole {r' : Response} {text : String} (h : Next c n)
    (hwhole : Whole r r' text) (hpersistent : r.persistent = r.request.persistent)
    (hfresh : c.responses.get (n + 1) = none) :
    Phase (settle (write (putResponse c n r') text) n r') := by
  have hput := h.put r'
  refine settle_phase (a := .whole text) ((write_link _ _).trans hput.link)
    ((write_session _ _).trans hput.session) ((write_incomplete _ _).trans hput.stream)
    ((write_parsed _ _).trans hput.parsed) hwhole.answer ?_ ?_ ?_ ?_
  · rw [hwhole.persistent, hwhole.request, hpersistent]
  · rw [write_of_open hput.link, texts_write, hput.written]
    rfl
  · rw [write_responses]
    exact hput.done
  · rw [write_responses]
    exact (Table.get_set_of_ne _ (by omega) _).trans hfresh

theorem Next.filed {r' : Response} {header : String} {chunked : Bool}
    {file : File} (h : Next c n) (hfiled : Filed r r' header chunked file) :
    Phase (write { putResponse c n r' with incomplete := some n } header) := by
  have hput := h.put r'
  have hget : (write { putResponse c n r' with incomplete := some n } header).responses.get n =
      some r' := by
    rw [write_responses]
    exact get_put c n r'
  have hupto : Upto (write { putResponse c n r' with incomplete := some n } header) n header
      (Stream.text ⟨chunked, file⟩) := by
    refine ⟨?_, ?_, ?_⟩
    · rw [write_of_open (c := { putResponse c n r' with incomplete := some n }) hput.link,
        texts_write]
      exact congrArg (· ++ header) hput.written
    · rw [text_of_answer hget hfiled.answer]
      exact (String.append_assoc).symm
    · rw [write_responses]
      exact hput.done
  exact .streaming ((write_link _ _).trans hput.link) ((write_session _ _).trans hput.session)
    (write_incomplete _ _) ((write_parsed _ _).trans hput.parsed) hget hfiled.finished
    hfiled.sendMore (by simp [hfiled.answer]) hupto

theorem Begins.phase (h : Begins c n r d) (hnext : Next c n)
    (hpersistent : r.persistent = r.request.persistent) (hr : r.finished = false)
    (hanswer : r.answer = none) (hfresh : c.responses.get (n + 1) = none) : Phase d := by
  cases h with
  | answered hwhole => exact hnext.whole hwhole hpersistent hfresh
  | streamed hfiled => exact hnext.filed hfiled
  | deferred =>
    have hput := hnext.put r
    refine .awaiting hput.link hput.session hput.stream hput.parsed (get_put c n r) hr hanswer
      ⟨hput.written.trans String.append_empty.symm, ?_, hput.done⟩
    rw [Conn.text, get_put, Option.bind_some, hanswer]
    rfl
  | @failed r' text hwhole =>
    have hput := hnext.put r'
    have hupto : Upto (write (putResponse c n r') text) n text "" := by
      refine ⟨?_, ?_, ?_⟩
      · rw [write_of_open hput.link, texts_write, hput.written]
      · rw [text_congr (c := putResponse c n r') (by rw [write_responses]),
          text_put c n hwhole.answer]
        exact String.append_empty
      · rw [write_responses]
        exact hput.done
    exact .closed (close_link _) (hupto.inOrder.congr (close_written _) (close_responses _))

/-! ## Files -/

theorem Stream.text_cons (chunked : Bool) (b : String) (rest : File) :
    Stream.text ⟨chunked, b :: rest⟩ =
      (if chunked then chunkText b else b) ++ Stream.text ⟨chunked, rest⟩ := by
  unfold Stream.text
  rw [List.map_cons, String.join_cons, String.append_assoc]

theorem sendMore_cons (finishCb : Conn → Conn) (c : Conn) (k : ℕ)
    (hr : r.finished = false) (chunked : Bool) (b : String) (rest : File) :
    sendMore finishCb c k r ⟨chunked, b :: rest⟩ =
      write (putResponse c k { r with sendMore := some ⟨chunked, rest⟩ })
        (if chunked then chunkText b else b) :=
  if_neg (by simp [hr])

theorem sendMore_nil (hidle : Idle finishCb c) (k : ℕ) (hr : r.finished = false) (chunked : Bool) :
    ∃ d, sendMore finishCb c k r ⟨chunked, []⟩ = settle d k r ∧ d.link = c.link ∧
      d.session = c.session ∧ d.waiting = c.waiting ∧ d.pending = c.pending ∧
      d.incomplete = none ∧ d.parsed = c.parsed ∧ d.responses = c.responses ∧
      (c.link = .open → d.written = c.written ++ Stream.text ⟨chunked, []⟩) ∧
      (c.link ≠ .open → d.written = c.written) := by
  cases chunked with
  | true =>
    refine ⟨{ write c "0\r\n\r\n" with incomplete := none }, ?_, write_link c _,
      write_session c _, write_waiting c _, write_pending c _, rfl, write_parsed c _,
      write_responses c _, ?_, ?_⟩
    · rw [← finishResponse_eq (c := { write c _ with incomplete := none }) ?_ k hr]
      · exact if_neg (by simp [hr])
      · intro c' hwaiting hsession hpending
        exact hidle c' (hwaiting.trans (write_waiting _ _)) (hsession.trans (write_session _ _))
          (hpending.trans (write_pending _ _))
    · exact fun h => write_of_open h _
    · intro h
      change (write c _).written = c.written
      rw [write_of_not_open h]
  | false =>
    refine ⟨{ c with incomplete := none }, ?_, rfl, rfl, rfl, rfl, rfl, rfl, rfl, ?_, fun _ => rfl⟩
    · rw [← finishResponse_eq (c := { c with incomplete := none }) hidle k hr]
      exact if_neg (by simp [hr])
    · exact fun _ => String.append_empty.symm

theorem sendMore_phase (hidle : Idle finishCb c) {k : ℕ}
    {stream : Stream} {part : String} (hlink : c.link = .open)
    (hsession : c.session = true) (hstream : c.incomplete = some k) (hparsed : c.parsed = k + 1)
    (hget : c.responses.get k = some r) (hr : r.finished = false)
    (hanswer : r.answer.isSome) (hpersistent : r.persistent = r.request.persistent)
    (hfresh : c.responses.get (k + 1) = none) (hupto : Upto c k part stream.text) :
    Phase (sendMore finishCb c k r stream) := by
  obtain ⟨chunked, file⟩ := stream
  obtain ⟨a, ha⟩ := Option.isSome_iff_exists.mp hanswer
  have htext : part ++ Stream.text ⟨chunked, file⟩ = a.text :=
    hupto.split.trans (text_of_answer hget ha)
  cases file with
  | cons b rest =>
    have hget' := get_put c k { r with sendMore := some ⟨chunked, rest⟩ }
    have hlink' : (putResponse c k { r with sendMore := some ⟨chunked, rest⟩ }).link = .open :=
      hlink
    rw [sendMore_cons finishCb c k hr]
    have hgot : (write (putResponse c k { r with sendMore := some ⟨chunked, rest⟩ })
        (if chunked then chunkText b else b)).responses.get k =
          some { r with sendMore := some ⟨chunked, rest⟩ } := by
      rw [write_responses]
      exact hget'
    have hupto' : Upto (write (putResponse c k { r with sendMore := some ⟨chunked, rest⟩ })
        (if chunked then chunkText b else b)) k (part ++ if chunked then chunkText b else b)
          (Stream.text ⟨chunked, rest⟩) := by
      refine ⟨?_, ?_, ?_⟩
      · rw [write_of_open hlink', texts_write, texts_put, ← String.append_assoc]
        exact congrArg (· ++ _) hupto.written
      · rw [text_of_answer hgot ha, ← htext, Stream.text_cons, String.append_assoc]
      · intro i hi
        rw [write_responses, get_put_of_lt c hi]
        exact hupto.done i hi
    exact .streaming ((write_link _ _).trans hlink) ((write_session _ _).trans hsession)
      ((write_incomplete _ _).trans hstream) ((write_parsed _ _).trans hparsed) hgot hr rfl
      hanswer hupto'
  | nil =>
    obtain ⟨d, hd, hdlink, hdsession, -, -, hdstream, hdparsed, hdresponses, hdwritten, -⟩ :=
      sendMore_nil hidle k hr chunked
    rw [hd]
    refine settle_phase (hdlink.trans hlink) (hdsession.trans hsession) hdstream
      (hdparsed.trans hparsed) ha hpersistent ?_ ?_ ?_
    · rw [hdwritten hlink, hupto.written, String.append_assoc, htext,
        texts_congr fun i _ => text_congr (by rw [hdresponses])]
    · rw [hdresponses]
      exact hupto.done
    · rw [hdresponses]
      exact hfresh

theorem sendMore_touches (hidle : Idle finishCb c) (k : ℕ)
    (hr : r.finished = false) (stream : Stream) :
    ∃ r', Touches c (sendMore finishCb c k r stream) k r' ∧ r'.answer = r.answer ∧
      r'.request = r.request ∧ r'.persistent = r.persistent := by
  obtain ⟨chunked, file⟩ := stream
  cases file with
  | cons b rest =>
    rw [sendMore_cons finishCb c k hr]
    exact ⟨_, (touches_put c k _).write _, rfl, rfl, rfl⟩
  | nil =>
    obtain ⟨d, hd, hlink, hsession, hwaiting, hpending, -, hparsed, hresponses, -, hquiet⟩ :=
      sendMore_nil hidle k hr chunked
    have hput : Touches c (putResponse d k { r with finished := true }) k
        { r with finished := true } := by
      refine ⟨hwaiting, hpending, fun h => hsession.symm.trans h, hparsed, ?_, fun h =>
        ⟨fun h' => h (hlink.symm.trans h'), hquiet h⟩⟩
      exact congrArg (fun t => Table.set t k (some { r with finished := true })) hresponses
    rw [hd]
    refine ⟨{ r with finished := true }, ?_, rfl, rfl, rfl⟩
    unfold settle
    split
    · exact hput
    · exact hput.close

/-! ## Runs -/

/-- A request is handed over only when every response has been finished, or when nothing more is
written. -/
def Clear (c : Conn) : Event → Prop
  | .parsed _ _ _ => c.link ≠ .open ∨ ∀ n r, c.responses.get n = some r → r.finished = true
  | _ => True

theorem Phase.touch (h : Phase c) (ht : Touches c d n r) (hlink : c.link ≠ .open)
    (hold : ∀ old, c.responses.get n = some old → old.answer.isSome →
      r.answer = old.answer ∧ r.request = old.request) : Phase d :=
  .closed (ht.quiet hlink).1 (h.inOrder.touch ht hlink hold)

theorem Sound.not_get (h : Sound c) (hn : c.parsed ≤ n) : c.responses.get n = none := by
  cases hget : c.responses.get n with
  | none => rfl
  | some r => exact absurd (h.response n r hget).1 (by omega)

theorem Sound.count (h : Sound c) : Sound { c with parsed := c.parsed + 1 } where
  waiting := h.waiting
  pending := h.pending
  response n r hr := ⟨Nat.lt_succ_of_lt (h.response n r hr).1, (h.response n r hr).2⟩

theorem owed_next (hsound : Sound c) (hphase : Phase c)
    (hlink : c.link = .open) (hget : c.responses.get n = some r) (hanswer : r.answer = none) :
    Next c n ∧ r.finished = false := by
  have hn := (hsound.response n r hget).1
  have hlast : ∀ {k part rest}, Upto c k part rest → ¬ n < k := by
    intro k part rest hupto hlt
    obtain ⟨r', hr', -, hsome, -⟩ := hupto.done n hlt
    obtain rfl := Option.some.inj (hget.symm.trans hr')
    rw [hanswer] at hsome
    cases hsome
  cases hphase with
  | closed hlink' _ => exact absurd hlink hlink'
  | ready _ _ _ hupto => exact absurd hn (hlast hupto)
  | @awaiting k r' hlink hsession hstream hparsed hget' hr hanswer' hupto =>
    obtain rfl : n = k := by
      have := hlast hupto
      omega
    obtain rfl := Option.some.inj (hget.symm.trans hget')
    exact ⟨⟨hlink, hsession, hstream, hparsed, hupto.written.trans String.append_empty,
      hupto.done⟩, hr⟩
  | @streaming k r' _ _ hlink hsession hstream hparsed hget' hr hmore hanswer' hupto =>
    obtain rfl : n = k := by
      have := hlast hupto
      omega
    obtain rfl := Option.some.inj (hget.symm.trans hget')
    rw [hanswer] at hanswer'
    cases hanswer'

theorem owed_eq_some (h : owed c n = some r) : c.responses.get n = some r ∧ r.answer = none := by
  unfold owed at h
  rw [Option.filter_eq_some_iff, Option.isNone_iff_eq_none] at h
  exact h

theorem parsed_phase (hsound : Sound c) (hphase : Phase c) {request : Request}
    {env : Env} {react : String → Reaction} (hclear : Clear c (.parsed request env react)) :
    ∃ d, successCb env react c request = some d ∧ Sound d ∧ Phase d := by
  cases hsession : c.session with
  | false =>
    refine ⟨_, successCb_ignored env react hsound hsession request, ⟨hsound.waiting, ?_,
      hsound.count.response⟩, ?_⟩
    · intro h
      simp [hsession] at h
    · cases hphase with
      | closed hlink horder => exact .closed hlink (horder.congr rfl rfl)
      | ready _ hsession' _ _ => simp [hsession] at hsession'
      | awaiting _ hsession' _ _ _ _ _ _ => simp [hsession] at hsession'
      | streaming _ hsession' _ _ _ _ _ _ _ => simp [hsession] at hsession'
  | true =>
    obtain ⟨d, hd, hbegins⟩ := successCb_begins env react hsound hsession request
    obtain ⟨r', htouches, hrequest, hpersistent⟩ := hbegins.touches
    have hnone := hsound.not_get (Nat.le_refl c.parsed)
    refine ⟨d, hd, hsound.count.touch htouches (Nat.lt_succ_self _) ?_, ?_⟩
    · rw [hpersistent, hrequest]
      rfl
    · cases hphase with
      | closed hlink horder =>
        have hcounted : InOrder { c with parsed := c.parsed + 1 } := horder.congr rfl rfl
        refine .closed (htouches.quiet hlink).1 (hcounted.touch htouches hlink ?_)
        intro old hold
        exact absurd (hnone.symm.trans hold) (Option.some_ne_none old).symm
      | ready hlink _ hstream hupto =>
        refine hbegins.phase ⟨hlink, hsession, hstream, rfl,
          hupto.written.trans String.append_empty, hupto.done⟩ rfl rfl rfl ?_
        exact hsound.not_get (Nat.le_succ _)
      | awaiting hlink _ _ _ hget hr _ _ =>
        have hfinished := (hclear.resolve_left (not_not_intro hlink)) _ _ hget
        rw [hr] at hfinished
        cases hfinished
      | streaming hlink _ _ _ hget hr _ _ _ =>
        have hfinished := (hclear.resolve_left (not_not_intro hlink)) _ _ hget
        rw [hr] at hfinished
        cases hfinished

/-- An answer to a request that awaits one. -/
theorem answered_phase (hsound : Sound c) (hphase : Phase c) (howed : owed c n = some r)
    {r' : Response} {d : Conn} (htouches : Touches c d n r')
    (hpersistent : r'.persistent = r.persistent) (hrequest : r'.request = r.request)
    (hnext : Next c n → Phase d) : Sound d ∧ Phase d := by
  obtain ⟨hget, hanswer⟩ := owed_eq_some howed
  obtain ⟨hn, hkept⟩ := hsound.response n r hget
  refine ⟨hsound.touch htouches hn (by rw [hpersistent, hrequest, hkept]), ?_⟩
  by_cases hlink : c.link = .open
  · exact hnext (owed_next hsound hphase hlink hget hanswer).1
  · refine hphase.touch htouches hlink fun old hold hsome => ?_
    obtain rfl := Option.some.inj (hget.symm.trans hold)
    rw [hanswer] at hsome
    cases hsome

theorem answer_phase (hsound : Sound c) (hphase : Phase c)
    (howed : owed c n = some r) (env : Env) (react : String → Reaction) (f : Content → Content)
    (body : Option String) :
    Sound (sendResponse env (processNext env react 2) c n { r with content := f r.content } body) ∧
      Phase (sendResponse env (processNext env react 2) c n { r with content := f r.content }
        body) := by
  by_cases hr : r.finished = true
  · have hsame : sendResponse env (processNext env react 2) c n { r with content := f r.content }
        body = c := if_pos hr
    rw [hsame]
    exact ⟨hsound, hphase⟩
  · rw [Bool.not_eq_true] at hr
    obtain ⟨r', text, hwhole, heq⟩ := sendResponse_eq env
      (idle_of_no_pending env react 2 hsound.waiting hsound.pending) n
      (r := { r with content := f r.content }) hr body
    rw [heq]
    refine answered_phase hsound hphase howed ((touches_put c n r').write text).settle
      hwhole.persistent hwhole.request fun hnext => hnext.whole hwhole ?_ (hsound.not_get ?_)
    · exact (hsound.response n r (owed_eq_some howed).1).2
    · have hparsed := hnext.parsed
      omega

theorem answerFile_phase (hsound : Sound c) (hphase : Phase c)
    (howed : owed c n = some r) (env : Env) (f : Content → Content) (file : File) :
    Sound (sendFile env c n { r with content := f r.content } file) ∧
      Phase (sendFile env c n { r with content := f r.content } file) := by
  by_cases hr : r.finished = true
  · have hsame : sendFile env c n { r with content := f r.content } file = c := if_pos hr
    rw [hsame]
    exact ⟨hsound, hphase⟩
  · rw [Bool.not_eq_true] at hr
    obtain ⟨r', header, chunked, hfiled, heq⟩ := sendFile_eq env c n
      (r := { r with content := f r.content }) hr file
    rw [heq]
    exact answered_phase hsound hphase howed
      (((touches_put c n r').incomplete (some n)).write header) hfiled.persistent hfiled.request
      fun hnext => hnext.filed hfiled

theorem Phase.drain (h : Phase c) : Phase { c with buffered := false } := by
  cases h with
  | closed hlink horder => exact .closed hlink (horder.congr rfl rfl)
  | ready hlink hsession hstream hupto =>
    exact .ready hlink hsession hstream ⟨hupto.written, hupto.split, hupto.done⟩
  | awaiting hlink hsession hstream hparsed hget hr hanswer hupto =>
    exact .awaiting hlink hsession hstream hparsed hget hr hanswer
      ⟨hupto.written, hupto.split, hupto.done⟩
  | streaming hlink hsession hstream hparsed hget hr hmore hanswer hupto =>
    exact .streaming hlink hsession hstream hparsed hget hr hmore hanswer
      ⟨hupto.written, hupto.split, hupto.done⟩

theorem ondrain_phase (hsound : Sound c) (hphase : Phase c) (hlink : c.link = .open)
    (env : Env) (react : String → Reaction) :
    Sound (ondrain (processNext env react 2) c) ∧ Phase (ondrain (processNext env react 2) c) := by
  have hidle := idle_of_no_pending env react 2 hsound.waiting hsound.pending
  unfold ondrain
  cases hphase with
  | closed hlink' _ => exact absurd hlink hlink'
  | ready hlink hsession hstream hupto =>
    rw [hstream]
    exact ⟨hsound, .ready hlink hsession hstream hupto⟩
  | awaiting hlink hsession hstream hparsed hget hr hanswer hupto =>
    rw [hstream]
    exact ⟨hsound, .awaiting hlink hsession hstream hparsed hget hr hanswer hupto⟩
  | @streaming k r stream part hlink hsession hstream hparsed hget hr hmore hanswer hupto =>
    simp only [hstream, hget, hmore]
    obtain ⟨hk, hpersistent⟩ := hsound.response k r hget
    obtain ⟨r', htouches, -, hrequest, hpersistent'⟩ := sendMore_touches hidle k hr stream
    refine ⟨hsound.touch htouches hk ?_, ?_⟩
    · rw [hpersistent', hrequest, hpersistent]
    · exact sendMore_phase hidle hlink hsession hstream hparsed hget hr hanswer hpersistent
        (hsound.not_get (by omega)) hupto

theorem Sound.closed (h : Sound c) : Sound (close c) where
  waiting := (close_waiting c).trans h.waiting
  pending hsession := (close_pending c).trans (h.pending (close_session hsession))
  response := by
    rw [close_responses, close_parsed]
    exact h.response

theorem Sound.ended (h : Sound c) : Sound { c with session := false } where
  waiting := h.waiting
  pending hsession := by simp at hsession
  response := h.response

theorem step_phase {e : Event} (h : Sound c ∧ Phase c) (hclear : Clear c e) :
    Sound (step c e) ∧ Phase (step c e) := by
  obtain ⟨hsound, hphase⟩ := h
  have hclosed : ∀ d : Conn, d.written = c.written → d.responses = c.responses →
      d.link ≠ .open → Phase d :=
    fun d hwritten hresponses hlink =>
      .closed hlink (hphase.inOrder.congr hwritten hresponses)
  cases e with
  | parsed request env react =>
    obtain ⟨d, hd, hnext⟩ := parsed_phase hsound hphase hclear
    rw [step, hd]
    exact hnext
  | malformed =>
    exact ⟨hsound.ended.closed,
      hclosed _ (close_written _) (close_responses _) (close_link _)⟩
  | answer n env react f body =>
    cases howed : owed c n with
    | none => simpa only [step, howed] using ⟨hsound, hphase⟩
    | some r =>
      simp only [step, howed]
      exact answer_phase hsound hphase howed env react f body
  | answerFile n env f file =>
    cases howed : owed c n with
    | none => simpa only [step, howed] using ⟨hsound, hphase⟩
    | some r =>
      simp only [step, howed]
      exact answerFile_phase hsound hphase howed env f file
  | drained env react =>
    have hsound' : Sound { c with buffered := false } :=
      ⟨hsound.waiting, hsound.pending, hsound.response⟩
    have hphase' := hphase.drain
    rw [step]
    split
    · simp only
      split
      · rename_i hlink
        exact ondrain_phase hsound' hphase' hlink env react
      · exact ⟨hsound'.closed,
          hclosed _ (close_written _) (close_responses _) (close_link _)⟩
      · exact ⟨hsound', hphase'⟩
    · exact ⟨hsound, hphase⟩
  | disconnected =>
    rw [step]
    split
    · exact ⟨hsound, hphase⟩
    · refine ⟨⟨hsound.waiting, fun h => by simp [ondisconnect] at h, hsound.response⟩, ?_⟩
      exact hclosed _ rfl rfl (by simp)

theorem start_phase : Sound start ∧ Phase start := by
  refine ⟨⟨rfl, fun _ => rfl, fun n r hr => ?_⟩, .ready rfl rfl rfl ⟨rfl, rfl, fun i hi => ?_⟩⟩
  · exact absurd ((Table.get_empty n).symm.trans hr) (Option.some_ne_none r).symm
  · exact absurd hi (Nat.not_lt_zero i)

/-- Responses stay in the order of their requests as long as no request is handed over before the
responses to the earlier ones are finished. -/
theorem responses_in_order {events : List Event} (h : Machine.Guarded step Clear start events) :
    Machine.Always step InOrder start events :=
  (Machine.always_of_guarded (P := fun c => Sound c ∧ Phase c) (fun _ _ => step_phase) start_phase
    h).mono fun _ hc => hc.2.inOrder

/-! ## Two requests for the root -/

def plainEnv : Env where
  date := ""
  order := KeyOrder.inserted String
  codes := fun _ => "200 OK"
  hosts := fun _ => true
  defaultHost := none
  httpError := fun _ content => (content, none)

def getRoot : Request := ⟨"GET", some "/", "1.1", ∅⟩

/-- The handler of the first request answers before the second is parsed. -/
def takingTurns : List Event :=
  [.parsed getRoot plainEnv fun _ => .later,
    .answer 0 plainEnv (fun _ => .unhandled) id (some "a"),
    .parsed getRoot plainEnv fun _ => .send id (some "b")]

theorem responses_in_order_taking_turns : Machine.Always step InOrder start takingTurns := by
  refine responses_in_order ⟨.inr fun n r hr => ?_, trivial, .inr fun n r hr => ?_, trivial⟩
  · exact absurd ((Table.get_empty n).symm.trans hr) (Option.some_ne_none r).symm
  · have hkeys : ∀ k ∈ (Machine.run step start (takingTurns.take 2)).responses.keys,
        ((Machine.run step start (takingTurns.take 2)).responses.get k).all Response.finished := by
      decide +kernel
    have hall := hkeys n ((Table.mem_keys _ _).mpr ⟨r, hr⟩)
    change (Machine.run step start (takingTurns.take 2)).responses.get n = some r at hr
    rw [hr] at hall
    exact hall

/-- Both requests arrive at once, and only the second is answered at once. -/
def overtaking : List Event :=
  [.parsed getRoot plainEnv fun _ => .later,
    .parsed getRoot plainEnv fun _ => .send id (some "b")]

theorem second_request_overtakes : ¬ Machine.Always step InOrder start overtaking := by
  intro halways
  obtain ⟨k, part, rest, hwritten, hsplit, hall⟩ :=
    Machine.always_iff.mp halways overtaking List.prefix_rfl
  have hunanswered : ((Machine.run step start overtaking).responses.get 0).all
      (·.answer.isNone) := by decide +kernel
  have hsome : (Machine.run step start overtaking).written ≠ "" := by decide +kernel
  have hnot : ¬ (Machine.run step start overtaking).answered 0 := by
    rintro ⟨r, hr, hanswer⟩
    rw [hr] at hunanswered
    simp only [Option.all_some, Option.isNone_iff_eq_none] at hunanswered
    rw [hunanswered] at hanswer
    cases hanswer
  cases k with
  | zero =>
    rw [text_of_unanswered hnot, String.append_eq_empty_iff] at hsplit
    rw [hsplit.1] at hwritten
    exact hsome hwritten
  | succ k => exact hnot (hall 0 (Nat.succ_pos k)).1

end Prosody.Http.Server
