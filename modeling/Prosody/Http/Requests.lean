import Prosody.Http.Feeding

/-! # Requests in any pieces

The parser as a server. What it makes of its input depends on where the input has been cut only if a
head is reached whose length does not fit what follows it. -/

namespace Prosody.Httpstream

def serverOptions (o : Options) : Options := { o with client := false }

/-! ## The length of a body -/

/-- A length that is no natural number, though the code finds it to be no more than the `m` bytes that
follow; of a negative one, so many bytes follow that `string.sub` counts them from the end. -/
def Misfit : Num → ℕ → Prop
  | .int n, m => n < 0 ∧ -n ≤ m
  | len, m => len.le m = true

/-- How many of the `m` bytes that follow belong to the body. -/
def Num.taken : Num → ℕ → Option ℕ
  | .int n, m => if n.toNat ≤ m then some n.toNat else none
  | _, _ => none

def Start.length (start : Start) : Num := start.len.getD (.int 0)

/-- A head is reached whose length does not fit what follows it. -/
inductive Misread (L : Lua) (o : Options) : Bytes → Prop
  | here {s : Bytes} {i : ℕ} {start : Start} (hi : indexOf crlfcrlf s = some i)
      (hstart : parseHead L o (s.take (i + 2)) = .ok start)
      (h : Misfit start.length (s.drop (i + 4)).length) : Misread L o s
  | later {s : Bytes} {i n : ℕ} {start : Start} (hi : indexOf crlfcrlf s = some i)
      (hstart : parseHead L o (s.take (i + 2)) = .ok start)
      (hfit : ¬ Misfit start.length (s.drop (i + 4)).length)
      (hn : start.length.taken (s.drop (i + 4)).length = some n)
      (h : Misread L o ((s.drop (i + 4)).drop n)) : Misread L o s

/-! ## Rounds of a server -/

/-- The message whose body is being read, if any. -/
abbrev Reading := Option (Packet × Num)

inductive Served where
  | wait (reading : Reading) (rest : Bytes)
  | success (packet : Packet) (rest : Bytes)
  | failure (reason : Reason)
  | crash

def serveBody (packet : Packet) (len : Num) (s : Bytes) : Served :=
  if len.le s.length then
    match len.index with
    | none => .crash
    | some n => .success { packet with body := some (upto s n) } (after s n)
  else .wait (some (packet, len)) s

def serve (L : Lua) (o : Options) : Reading → Bytes → Served
  | some (packet, len), s => serveBody packet len s
  | none, s =>
    match indexOf crlfcrlf s with
    | none => .wait none s
    | some i =>
      match parseHead L o (s.take (i + 2)) with
      | .error reason => .failure reason
      | .ok start => serveBody start.packet start.length (s.drop (i + 4))

inductive End where
  | waiting (reading : Reading) (rest : Bytes)
  | failed
  | crashed

/-- The calls that are made of some input, and how it ends. -/
inductive Serves (L : Lua) (o : Options) : Reading → Bytes → List Call → End → Prop
  | wait {reading s reading' rest} (h : serve L o reading s = .wait reading' rest) :
      Serves L o reading s [] (.waiting reading' rest)
  | failure {reading s reason} (h : serve L o reading s = .failure reason) :
      Serves L o reading s [.failure reason] .failed
  | crash {reading s} (h : serve L o reading s = .crash) : Serves L o reading s [] .crashed
  | success {reading s packet rest calls e} (h : serve L o reading s = .success packet rest)
      (later : Serves L o none rest calls e) : Serves L o reading s (.success packet :: calls) e

variable {s : Bytes} {calls : List Call} {L : Lua} {o : Options} {reading : Reading}

theorem Serves.unique {calls' : List Call} {e e' : End} (h : Serves L o reading s calls e)
    (h' : Serves L o reading s calls' e') : calls = calls' ∧ e = e' := by
  induction h generalizing calls' e' with
  | wait h =>
    cases h' with
    | wait h' =>
      rw [h] at h'
      cases h'
      exact ⟨rfl, rfl⟩
    | failure h' => rw [h] at h'; cases h'
    | crash h' => rw [h] at h'; cases h'
    | success h' _ => rw [h] at h'; cases h'
  | failure h =>
    cases h' with
    | wait h' => rw [h] at h'; cases h'
    | failure h' =>
      rw [h] at h'
      cases h'
      exact ⟨rfl, rfl⟩
    | crash h' => rw [h] at h'; cases h'
    | success h' _ => rw [h] at h'; cases h'
  | crash h =>
    cases h' with
    | wait h' => rw [h] at h'; cases h'
    | failure h' => rw [h] at h'; cases h'
    | crash h' => exact ⟨rfl, rfl⟩
    | success h' _ => rw [h] at h'; cases h'
  | success h later ih =>
    cases h' with
    | wait h' => rw [h] at h'; cases h'
    | failure h' => rw [h] at h'; cases h'
    | crash h' => rw [h] at h'; cases h'
    | success h' later' =>
      rw [h] at h'
      cases h'
      obtain ⟨rfl, rfl⟩ := ih later'
      exact ⟨rfl, rfl⟩

variable {packet : Packet}

theorem Serves.of_success {rest : Bytes} {e : End} (hs : serve L o reading s = .success packet rest)
    (h : Serves L o reading s calls e) :
    ∃ later, calls = .success packet :: later ∧ Serves L o none rest later e := by
  cases h with
  | wait h => rw [hs] at h; cases h
  | failure h => rw [hs] at h; cases h
  | crash h => rw [hs] at h; cases h
  | success h later =>
    rw [hs] at h
    cases h
    exact ⟨_, rfl, later⟩

/-! ## The parser as a server -/

/-- What a parser is reading, and what it has not used yet. -/
structure View (p : Parser) (reading : Reading) (s : Bytes) : Prop where
  error : p.error = false
  buf : p.buf.concat = s
  buflen : p.buflen = s.length
  state : p.state = reading.map Prod.fst
  len : ∀ packet len, reading = some (packet, len) → p.len = some len

/-- A round of the parser does what is said of its input. -/
inductive Matches : Turn → Served → Prop
  | wait {p reading rest} (h : View p reading rest) : Matches (.stop p) (.wait reading rest)
  | success {p packet rest} (h : View p none rest) :
      Matches (.call p (.success packet)) (.success packet rest)
  | failure {p reason} (h : p.error = true) : Matches (.call p (.failure reason)) (.failure reason)
  | crash {p} : Matches (.raise p) .crash

variable {len : Num}

theorem readBody_serve (ho : o.client = false) {p : Parser}
    (hview : View p (some (packet, len)) s) :
    Matches (readBody o p packet) (serveBody packet len s) := by
  unfold readBody serveBody
  rw [ho, hview.len packet len rfl, hview.buflen]
  simp only [Bool.false_and, Bool.false_eq_true, if_false]
  split
  · unfold takeBody
    rw [hview.buf]
    cases len.index with
    | none => exact .crash
    | some n =>
      refine .success ⟨hview.error, rfl, rfl, rfl, fun packet' len' h => ?_⟩
      cases h
  · exact .wait hview

theorem parseHead_len (ho : o.client = false) {head : Bytes}
    {start : Start} (h : parseHead L o head = .ok start) : start.len = some start.length := by
  have hrequest : ∀ line rest, parseRequest L o line rest = .ok start →
      start.len = some start.length := by
    intro line rest hok
    unfold parseRequest at hok
    split at hok
    · cases hok
    · rename_i method path httpversion _
      cases hheaders : parseHeaders L o rest with
      | error reason =>
        rw [hheaders] at hok
        cases hok
      | ok pair =>
        cases hurl : parseUrl L path with
        | error reason =>
          rw [hheaders, hurl] at hok
          cases hok
        | ok url =>
          rw [hheaders, hurl] at hok
          cases hok
          rfl
  unfold parseHead at h
  split at h
  · cases h
  · rw [ho, if_neg Bool.false_ne_true] at h
    exact hrequest _ _ h

theorem turn_serve (ho : o.client = false) {p : Parser} (hview : View p reading s) :
    Matches (turn L o p) (serve L o reading s) := by
  cases reading with
  | some pair =>
    obtain ⟨packet, len⟩ := pair
    rw [turn, hview.state]
    exact readBody_serve ho hview
  | none =>
    have hstate : p.state = none := hview.state
    unfold turn serve
    rw [hstate]
    simp only [hview.buf]
    cases indexOf crlfcrlf s with
    | none => exact .wait ⟨hview.error, rfl, hview.buflen, rfl, hview.len⟩
    | some i =>
      simp only
      cases hhead : parseHead L o (s.take (i + 2)) with
      | error reason => exact .failure rfl
      | ok start =>
        refine readBody_serve ho ⟨hview.error, rfl, rfl, rfl, fun packet len heq => ?_⟩
        cases heq
        exact parseHead_len ho hhead

/-- How the parser is left, and whether an error has been raised. -/
inductive Leaves : End → Parser → Bool → Prop
  | waiting {reading rest p} (h : View p reading rest) : Leaves (.waiting reading rest) p false
  | failed {p} (h : p.error = true) : Leaves .failed p false
  | crashed {p} : Leaves .crashed p true

theorem loops_serves (ho : o.client = false) {p : Parser} {out : Parser × List Call × Bool}
    (h : Loops L o log p calls out) (hview : View p reading s) (hempty : s = [] → reading = none) :
    ∃ made e, Serves L o reading s made e ∧ out.2.1 = calls ++ made ∧ Leaves e out.1 out.2.2 := by
  induction h generalizing reading s with
  | empty h =>
    have hs : s = [] := List.eq_nil_of_length_eq_zero (hview.buflen.symm.trans h)
    obtain rfl := hempty hs
    subst hs
    exact ⟨[], _, .wait rfl, (List.append_nil _).symm, .waiting hview⟩
  | stop hne h =>
    have hmatch := turn_serve (L := L) ho hview
    rw [h] at hmatch
    generalize hserve : serve L o reading s = served at hmatch
    cases hmatch with
    | wait hv => exact ⟨[], _, .wait hserve, (List.append_nil _).symm, .waiting hv⟩
  | raise hne h =>
    have hmatch := turn_serve (L := L) ho hview
    rw [h] at hmatch
    generalize hserve : serve L o reading s = served at hmatch
    cases hmatch with
    | crash => exact ⟨[], _, .crash hserve, (List.append_nil _).symm, .crashed⟩
  | next hne h rest ih =>
    have hmatch := turn_serve (L := L) ho hview
    rw [h] at hmatch
    generalize serve L o reading s = served at hmatch
    cases hmatch
  | raised hne h hc => cases hc
  | failure hne h hc =>
    have hmatch := turn_serve (L := L) ho hview
    rw [h] at hmatch
    generalize hserve : serve L o reading s = served at hmatch
    cases hmatch with
    | failure hv => exact ⟨_, _, .failure hserve, rfl, .failed hv⟩
  | success hne h hc rest ih =>
    have hmatch := turn_serve (L := L) ho hview
    rw [h] at hmatch
    generalize hserve : serve L o reading s = served at hmatch
    cases hmatch with
    | success hv =>
      obtain ⟨made, e, hserves, hcalls, hleaves⟩ := ih hv fun _ => rfl
      refine ⟨_, e, .success hserve hserves, ?_, hleaves⟩
      rw [hcalls, log, List.append_assoc]
      rfl

/-! ## More input -/

/-- No head is reached in the input whose length does not fit what follows it. -/
def Fits (L : Lua) (o : Options) : Reading → Bytes → Prop
  | none, s => ¬ Misread L o s
  | some (_, len), s => ¬ Misfit len s.length ∧
      ∀ n, len.taken s.length = some n → ¬ Misread L o (s.drop n)

theorem le_of_le {m n : ℕ} (h : len.le m = true) (hmn : m ≤ n) : len.le n = true := by
  cases len with
  | int k =>
    simp only [Num.le, decide_eq_true_iff] at h ⊢
    omega
  | frac below =>
    simp only [Num.le, decide_eq_true_iff] at h ⊢
    omega
  | nan => cases h
  | infinite positive => exact h

variable {u : Bytes}

theorem upto_append {n : ℕ} (h : n ≤ s.length) : upto (s ++ u) n = upto s n := by
  simp only [upto, Int.natCast_nonneg, if_true, Int.toNat_natCast]
  exact List.take_append_of_le_length h

theorem after_append {n : ℕ} (h : n ≤ s.length) : after (s ++ u) n = after s n ++ u := by
  simp only [after, Int.natCast_nonneg, if_true, Int.toNat_natCast]
  exact List.drop_append_of_le_length h

/-- A negative length that is counted from the end of too little takes nothing. -/
theorem upto_of_short {n : ℤ} (hn : n < 0) (h : (s.length : ℤ) < -n) : upto s n = [] := by
  rw [upto, if_neg (by omega), Int.toNat_of_nonpos (by omega)]
  exact List.take_zero

theorem after_of_short {n : ℤ} (hn : n < 0) (h : (s.length : ℤ) < -n) : after s n = s := by
  rw [after, if_neg (by omega)]
  split
  · rfl
  · rw [Int.toNat_of_nonpos (by omega)]
    exact List.drop_zero

theorem serveBody_append (hfits : Fits L o (some (packet, len)) (s ++ u)) :
    serveBody packet len s = .wait (some (packet, len)) s ∨
      ∃ packet' rest, serveBody packet len s = .success packet' rest ∧
        serveBody packet len (s ++ u) = .success packet' (rest ++ u) ∧
        Fits L o none (rest ++ u) := by
  obtain ⟨hfit, htaken⟩ := hfits
  have hlen : s.length ≤ (s ++ u).length := by simp
  unfold serveBody
  by_cases hle : len.le s.length = true
  · have hle' := le_of_le hle hlen
    rw [if_pos hle, if_pos hle']
    cases len with
    | int n =>
      refine .inr ⟨_, _, rfl, ?_⟩
      simp only [Num.le, decide_eq_true_iff] at hle
      by_cases hneg : n < 0
      · have hshort : ((s ++ u).length : ℤ) < -n := by
          by_contra hnot
          exact hfit ⟨hneg, by omega⟩
        have hshort' : (s.length : ℤ) < -n := by omega
        have hzero : Num.taken (.int n) (s ++ u).length = some 0 := by
          rw [Num.taken, Int.toNat_of_nonpos (by omega), if_pos (Nat.zero_le _)]
        simp only [Num.index, upto_of_short hneg hshort, upto_of_short hneg hshort',
          after_of_short hneg hshort, after_of_short hneg hshort']
        exact ⟨trivial, htaken 0 hzero⟩
      · obtain ⟨k, rfl⟩ := Int.eq_ofNat_of_zero_le (by omega : 0 ≤ n)
        have hk : k ≤ s.length := by omega
        have hsome : Num.taken (.int k) (s ++ u).length = some k := by
          rw [Num.taken, Int.toNat_natCast, if_pos (by omega)]
        have hrest := htaken k hsome
        simp only [Num.index]
        rw [upto_append hk, after_append hk]
        refine ⟨rfl, ?_⟩
        rw [List.drop_append_of_le_length hk] at hrest
        simpa [Fits, after] using hrest
    | frac below => exact absurd hle' hfit
    | nan => cases hle
    | infinite positive => exact absurd hle' hfit
  · exact .inl (if_neg hle)

theorem indexOf_le_of_crlfcrlf {i : ℕ} (h : indexOf crlfcrlf s = some i) : i + 4 ≤ s.length :=
  indexOf_length h

theorem serve_append (hfits : Fits L o reading (s ++ u)) :
    (∃ reading' rest, serve L o reading s = .wait reading' rest ∧
        serve L o reading (s ++ u) = serve L o reading' (rest ++ u) ∧
        Fits L o reading' (rest ++ u)) ∨
      (∃ packet rest, serve L o reading s = .success packet rest ∧
        serve L o reading (s ++ u) = .success packet (rest ++ u) ∧ Fits L o none (rest ++ u)) ∨
      (∃ reason, serve L o reading s = .failure reason ∧
        serve L o reading (s ++ u) = .failure reason) := by
  cases reading with
  | some pair =>
    obtain ⟨packet, len⟩ := pair
    rcases serveBody_append hfits with hwait | ⟨packet', rest, hs, hsu, hf⟩
    · exact .inl ⟨_, _, hwait, rfl, hfits⟩
    · exact .inr (.inl ⟨_, _, hs, hsu, hf⟩)
  | none =>
    cases hindex : indexOf crlfcrlf s with
    | none =>
      refine .inl ⟨none, s, ?_, rfl, hfits⟩
      rw [serve, hindex]
    | some i =>
      have hi := indexOf_le_of_crlfcrlf hindex
      have hindex' := indexOf_append hindex u
      have htake : (s ++ u).take (i + 2) = s.take (i + 2) :=
        List.take_append_of_le_length (by omega)
      have hdrop : (s ++ u).drop (i + 4) = s.drop (i + 4) ++ u :=
        List.drop_append_of_le_length hi
      cases hhead : parseHead L o (s.take (i + 2)) with
      | error reason =>
        refine .inr (.inr ⟨reason, ?_, ?_⟩)
        · simp only [serve, hindex, hhead]
        · simp only [serve, hindex', htake, hhead]
      | ok start =>
        have hs : serve L o none s = serveBody start.packet start.length (s.drop (i + 4)) := by
          simp only [serve, hindex, hhead]
        have hsu : serve L o none (s ++ u) =
            serveBody start.packet start.length (s.drop (i + 4) ++ u) := by
          simp only [serve, hindex', htake, hhead, hdrop]
        have hhead' : parseHead L o ((s ++ u).take (i + 2)) = .ok start := by
          rw [htake, hhead]
        have hfit : ¬ Misfit start.length (s.drop (i + 4) ++ u).length := by
          rw [← hdrop]
          exact fun h => hfits (.here hindex' hhead' h)
        have hbody : Fits L o (some (start.packet, start.length)) (s.drop (i + 4) ++ u) := by
          refine ⟨hfit, fun n hn hmis => hfits ?_⟩
          rw [← hdrop] at hfit hn hmis
          exact .later hindex' hhead' hfit hn hmis
        rw [hs, hsu]
        rcases serveBody_append hbody with hwait | ⟨packet', rest, hs, hsu, hf⟩
        · exact .inl ⟨_, _, hwait, rfl, hbody⟩
        · exact .inr (.inl ⟨_, _, hs, hsu, hf⟩)

theorem Serves.append {L : Lua} {o : Options} {reading : Reading} {s u : Bytes}
    {calls : List Call} {e : End} (h : Serves L o reading s calls e)
    (hfits : Fits L o reading (s ++ u)) :
    (∃ reading' rest, e = .waiting reading' rest ∧ Fits L o reading' (rest ++ u) ∧
        ∀ calls' e', Serves L o reading' (rest ++ u) calls' e' →
          Serves L o reading (s ++ u) (calls ++ calls') e') ∨
      (e = .failed ∧ Serves L o reading (s ++ u) calls .failed) := by
  induction h with
  | wait h =>
    rcases serve_append hfits with ⟨reading', rest, hw, hsame, hf⟩ | ⟨_, _, hs, -⟩ | ⟨_, hs, -⟩
    · rw [h] at hw
      cases hw
      refine .inl ⟨_, _, rfl, hf, fun calls' e' hserves => ?_⟩
      rw [List.nil_append]
      cases hserves with
      | wait h' => exact .wait (hsame.trans h')
      | failure h' => exact .failure (hsame.trans h')
      | crash h' => exact .crash (hsame.trans h')
      | success h' later => exact .success (hsame.trans h') later
    · rw [h] at hs
      cases hs
    · rw [h] at hs
      cases hs
  | failure h =>
    rcases serve_append hfits with ⟨_, _, hw, -⟩ | ⟨_, _, hs, -⟩ | ⟨reason, hs, hsu⟩
    · rw [h] at hw
      cases hw
    · rw [h] at hs
      cases hs
    · rw [h] at hs
      cases hs
      exact .inr ⟨rfl, .failure hsu⟩
  | crash h =>
    rcases serve_append hfits with ⟨_, _, hw, -⟩ | ⟨_, _, hs, -⟩ | ⟨_, hs, -⟩
    · rw [h] at hw
      cases hw
    · rw [h] at hs
      cases hs
    · rw [h] at hs
      cases hs
  | success h later ih =>
    rcases serve_append hfits with ⟨_, _, hw, -⟩ | ⟨packet, rest, hs, hsu, hf⟩ | ⟨_, hs, -⟩
    · rw [h] at hw
      cases hw
    · rw [h] at hs
      cases hs
      rcases ih hf with ⟨reading', rest', rfl, hf', hall⟩ | ⟨rfl, hserves⟩
      · exact .inl ⟨reading', rest', rfl, hf', fun calls' e' hserves =>
          .success hsu (hall calls' e' hserves)⟩
      · exact .inr ⟨rfl, .success hsu hserves⟩
    · rw [h] at hs
      cases hs

/-! ## Pieces -/

theorem Serves.stuck {reading' : Reading} {rest : Bytes}
    (h : Serves L o reading s calls (.waiting reading' rest)) :
    serve L o reading' rest = .wait reading' rest := by
  generalize he : End.waiting reading' rest = e at h
  induction h with
  | @wait reading s r t h =>
    cases he
    cases reading with
    | some pair =>
      obtain ⟨packet, len⟩ := pair
      have hbody : serveBody packet len s = .wait reading' rest := h
      rw [serveBody] at hbody
      split at hbody
      · split at hbody <;> cases hbody
      · cases hbody
        exact h
    | none =>
      rw [serve] at h
      split at h
      · rename_i hindex
        cases h
        rw [serve, hindex]
      · split at h
        · cases h
        · rename_i start _
          rw [serveBody] at h
          split at h
          · split at h <;> cases h
          · rename_i hle
            cases h
            rw [serve, serveBody, if_neg hle]
  | failure h => cases he
  | crash h => cases he
  | success h later ih => exact ih he

theorem serve_length_le :
    (∀ reading' rest, serve L o reading s = .wait reading' rest → rest.length ≤ s.length) ∧
      ∀ packet rest, serve L o reading s = .success packet rest → rest.length ≤ s.length := by
  have hbody : ∀ packet len (t : Bytes), t.length ≤ s.length →
      (∀ reading' rest, serveBody packet len t = .wait reading' rest → rest.length ≤ s.length) ∧
        ∀ packet' rest, serveBody packet len t = .success packet' rest →
          rest.length ≤ s.length := by
    intro packet len t ht
    unfold serveBody
    split
    · cases len.index with
      | none => exact ⟨fun _ _ h => (by cases h), fun _ _ h => (by cases h)⟩
      | some n =>
        refine ⟨fun _ _ h => (by cases h), fun _ _ h => ?_⟩
        cases h
        exact (after_length_le t n).trans ht
    · refine ⟨fun _ _ h => ?_, fun _ _ h => (by cases h)⟩
      cases h
      exact ht
  cases reading with
  | some pair => exact hbody pair.1 pair.2 s (Nat.le_refl _)
  | none =>
    cases hindex : indexOf crlfcrlf s with
    | none =>
      simp only [serve, hindex]
      refine ⟨fun _ _ h => ?_, fun _ _ h => (by cases h)⟩
      cases h
      exact Nat.le_refl _
    | some i =>
      cases hhead : parseHead L o (s.take (i + 2)) with
      | error reason =>
        simp only [serve, hindex, hhead]
        exact ⟨fun _ _ h => (by cases h), fun _ _ h => (by cases h)⟩
      | ok start =>
        simp only [serve, hindex, hhead]
        exact hbody _ _ _ (by simp)

theorem Serves.length_le {reading' : Reading} {rest : Bytes}
    (h : Serves L o reading s calls (.waiting reading' rest)) : rest.length ≤ s.length := by
  generalize he : End.waiting reading' rest = e at h
  induction h with
  | wait h =>
    cases he
    exact serve_length_le.1 _ _ h
  | failure h => cases he
  | crash h => cases he
  | success h later ih => exact (ih he).trans (serve_length_le.2 _ _ h)

theorem View.insert {p : Parser} (h : View p reading s)
    (data : Bytes) : View (insert p data) reading (s ++ data) where
  error := h.error
  buf := by simp [Httpstream.insert, h.buf]
  buflen := by simp [Httpstream.insert, h.buflen]
  state := h.state
  len := h.len

theorem feed_serves (L : Lua) (ho : o.client = false) {p : Parser}
    (hview : View p reading s) {data : Bytes} (hdata : data ≠ [])
    (hlimit : (s ++ data).length ≤ o.buflimit) (calls : List Call) (was : Bool) :
    ∃ p' made e raised, feedOne L o (p, calls, was) data = (p', calls ++ made, was || raised) ∧
      Serves L o reading (s ++ data) made e ∧ Leaves e p' raised := by
  have hv := hview.insert data
  obtain ⟨⟨p', calls', raised⟩, hfeed, hloops⟩ := feed_loops L o log hview.error (s := calls)
    (by rw [hv.buflen]; exact hlimit)
  obtain ⟨made, e, hserves, hcalls, hleaves⟩ := loops_serves ho hloops hv
    fun hnil => absurd (List.append_eq_nil_iff.mp hnil).2 hdata
  refine ⟨p', made, e, raised, ?_, hserves, hleaves⟩
  rw [feedOne, hfeed]
  simp only at hcalls ⊢
  rw [hcalls]

theorem feeds_of_error (L : Lua) (o : Options) {p : Parser} (h : p.error = true)
    (calls : List Call) (was : Bool) (pieces : List Bytes) :
    pieces.foldl (feedOne L o) (p, calls, was) = (p, calls, was) := by
  induction pieces with
  | nil => rfl
  | cons data pieces ih =>
    have hfeed : feed L o log p calls data = some (p, calls, false) := if_pos h
    rw [List.foldl_cons, feedOne, hfeed]
    simp only [Bool.or_false]
    exact ih

theorem feeds_serves (L : Lua) (ho : o.client = false) {pieces : List Bytes}
    (hpieces : ∀ data ∈ pieces, data ≠ []) {p : Parser}
    (hview : View p reading s) (hstuck : serve L o reading s = .wait reading s)
    (hlimit : (s ++ pieces.flatten).length ≤ o.buflimit)
    (hfits : Fits L o reading (s ++ pieces.flatten)) (calls : List Call) (was : Bool) :
    ∃ made e, Serves L o reading (s ++ pieces.flatten) made e ∧
      (pieces.foldl (feedOne L o) (p, calls, was)).2 = (calls ++ made, was) := by
  induction pieces generalizing p reading s calls with
  | nil =>
    refine ⟨[], .waiting reading s, ?_, by simp⟩
    rw [List.flatten_nil, List.append_nil]
    exact .wait hstuck
  | cons data pieces ih =>
    rw [List.flatten_cons, ← List.append_assoc] at hlimit hfits ⊢
    obtain ⟨p', made, e, raised, hfeed, hserves, hleaves⟩ := feed_serves L ho hview
      (hpieces data List.mem_cons_self) (by
        rw [List.length_append] at hlimit
        omega) calls was
    rw [List.foldl_cons, hfeed]
    rcases hserves.append hfits with ⟨reading', rest, rfl, hf, hall⟩ | ⟨rfl, hwhole⟩
    · cases hleaves with
      | waiting hv =>
        have hrest := hserves.length_le
        obtain ⟨made', e', hserves', hfold⟩ := ih
          (fun data' h => hpieces data' (List.mem_cons_of_mem _ h)) hv hserves.stuck
          (by
            rw [List.length_append] at hlimit ⊢
            omega) hf (calls ++ made)
        refine ⟨made ++ made', e', hall _ _ hserves', ?_⟩
        rw [Bool.or_false, hfold, List.append_assoc]
    · cases hleaves with
      | failed herror =>
        refine ⟨made, .failed, hwhole, ?_⟩
        rw [feeds_of_error L o herror, Bool.or_false]

/-! ## Heads whose length does not fit -/

theorem serveBody_taken (packet : Packet) {r : Bytes} {n : ℕ}
    (hfit : ¬ Misfit len r.length) (hn : len.taken r.length = some n) :
    n ≤ r.length ∧ ∃ packet', ∀ t, t <+: r.drop n →
      serveBody packet len (r.take n ++ t) = .success packet' t := by
  cases len with
  | int k =>
    simp only [Num.taken] at hn
    split at hn
    · rename_i hle
      obtain rfl := Option.some.inj hn
      refine ⟨hle, { packet with body := some (r.take k.toNat) }, fun t ht => ?_⟩
      have htlen := ht.length_le
      rw [List.length_drop] at htlen
      have hlength : (r.take k.toNat ++ t).length = k.toNat + t.length := by
        rw [List.length_append, List.length_take, Nat.min_eq_left hle]
      rw [serveBody, hlength, if_pos (by simp only [Num.le, decide_eq_true_iff]; omega)]
      simp only [Num.index]
      by_cases hneg : k < 0
      · have hzero : k.toNat = 0 := Int.toNat_of_nonpos (by omega)
        have hshort : (t.length : ℤ) < -k := by
          by_contra hnot
          exact hfit ⟨hneg, by omega⟩
        rw [hzero, List.take_zero, List.nil_append, upto_of_short hneg hshort,
          after_of_short hneg hshort]
      · obtain ⟨m, rfl⟩ := Int.eq_ofNat_of_zero_le (by omega : 0 ≤ k)
        rw [Int.toNat_natCast] at hle ⊢
        have hm : m ≤ (r.take m).length := by
          rw [List.length_take]
          omega
        rw [upto_append hm, after_append hm]
        simp [upto, after]
    · cases hn
  | frac below => cases hn
  | nan => cases hn
  | infinite positive => cases hn

/-- What follows a head is served alike however much of it has arrived. -/
theorem serve_head {i : ℕ} {start : Start} (hi : indexOf crlfcrlf s = some i)
    (hstart : parseHead L o (s.take (i + 2)) = .ok start) (t : Bytes) :
    serve L o none (s.take (i + 4) ++ t) = serveBody start.packet start.length t := by
  have hlen := indexOf_le_of_crlfcrlf hi
  have hhead : (s.take (i + 4)).length = i + 4 := by
    rw [List.length_take]
    omega
  have hi' : indexOf crlfcrlf (s.take (i + 4)) = some i := by
    refine indexOf_of_append (t := s.drop (i + 4)) ?_ hhead.ge
    rw [List.take_append_drop]
    exact hi
  have htake : (s.take (i + 4) ++ t).take (i + 2) = s.take (i + 2) := by
    rw [List.take_append_of_le_length (by omega), List.take_take, Nat.min_eq_left (by omega)]
  simp only [serve, indexOf_append hi' t, htake, hstart, List.drop_left' hhead]

/-- The text falls into two parts, and of some message the body is another one when only the first
part has arrived. -/
def Splits (L : Lua) (o : Options) (s : Bytes) : Prop :=
  ∃ s₁ s₂ before, ∃ (packet : Packet) (n : ℤ), s = s₁ ++ s₂ ∧ s₁ ≠ [] ∧ n < 0 ∧ -n ≤ s₂.length ∧
    (∀ made e, Serves L o none s made e → ∃ more,
      made = before ++ .success { packet with body := some (upto s₂ n) } :: more) ∧
    ∀ made e, Serves L o none s₁ made e → ∃ more,
      made = before ++ .success { packet with body := some [] } :: more

theorem splits_here {i : ℕ} {start : Start} {n : ℤ} (hi : indexOf crlfcrlf s = some i)
    (hstart : parseHead L o (s.take (i + 2)) = .ok start) (hl : start.length = .int n)
    (hneg : n < 0) (hmany : -n ≤ (s.drop (i + 4)).length) : Splits L o s := by
  have hbody : ∀ t, serve L o none (s.take (i + 4) ++ t) =
      .success { start.packet with body := some (upto t n) } (after t n) := by
    intro t
    have hle : Num.le (.int n) t.length = true := by
      simp only [Num.le, decide_eq_true_iff]
      omega
    rw [serve_head hi hstart, hl, serveBody, if_pos hle]
    rfl
  have hnil : upto [] n = [] := by simp [upto]
  refine ⟨s.take (i + 4), s.drop (i + 4), [], start.packet, n,
    (List.take_append_drop _ _).symm, ?_, hneg, hmany, ?_, ?_⟩
  · intro hnil
    have hlen := indexOf_le_of_crlfcrlf hi
    have hzero := congrArg List.length hnil
    rw [List.length_take, List.length_nil] at hzero
    omega
  · intro made e hserves
    have hwhole := hbody (s.drop (i + 4))
    rw [List.take_append_drop] at hwhole
    obtain ⟨later, rfl, -⟩ := hserves.of_success hwhole
    exact ⟨later, rfl⟩
  · intro made e hserves
    have hpart := hbody []
    rw [List.append_nil, hnil] at hpart
    obtain ⟨later, rfl, -⟩ := hserves.of_success hpart
    exact ⟨later, rfl⟩

theorem Splits.behind {i m : ℕ} {start : Start} {packet' : Packet}
    (h : Splits L o ((s.drop (i + 4)).drop m)) (hi : indexOf crlfcrlf s = some i)
    (hstart : parseHead L o (s.take (i + 2)) = .ok start)
    (hserve : ∀ t, t <+: (s.drop (i + 4)).drop m →
      serveBody start.packet start.length ((s.drop (i + 4)).take m ++ t) = .success packet' t) :
    Splits L o s := by
  obtain ⟨s₁, s₂, before, packet, k, heq, hne, hneg, hmany, hall, hpart⟩ := h
  have hhead : ∀ t, t <+: (s.drop (i + 4)).drop m →
      serve L o none (s.take (i + 4) ++ ((s.drop (i + 4)).take m ++ t)) = .success packet' t :=
    fun t ht => (serve_head hi hstart _).trans (hserve t ht)
  refine ⟨s.take (i + 4) ++ ((s.drop (i + 4)).take m ++ s₁), s₂, .success packet' :: before, packet,
    k, ?_, ?_, hneg, hmany, ?_, ?_⟩
  · rw [List.append_assoc, List.append_assoc, ← heq, List.take_append_drop,
      List.take_append_drop]
  · simp [hne]
  · intro made e hserves
    have hwhole := hhead _ List.prefix_rfl
    rw [List.take_append_drop, List.take_append_drop] at hwhole
    obtain ⟨later, rfl, hlater⟩ := hserves.of_success hwhole
    obtain ⟨more, rfl⟩ := hall later e hlater
    exact ⟨more, rfl⟩
  · intro made e hserves
    obtain ⟨later, rfl, hlater⟩ := hserves.of_success (hhead s₁ (heq ▸ List.prefix_append _ _))
    obtain ⟨more, rfl⟩ := hpart later e hlater
    exact ⟨more, rfl⟩

/-- Where a head does not fit, either an error is raised, or the body depends on how much of what
follows the head has arrived. -/
theorem Misread.split (h : Misread L o s) :
    (∀ made e, Serves L o none s made e → e = .crashed) ∨ Splits L o s := by
  induction h with
  | @here s i start hi hstart h =>
    have hs : serve L o none s = serveBody start.packet start.length (s.drop (i + 4)) := by
      have hhead := serve_head hi hstart (s.drop (i + 4))
      rwa [List.take_append_drop] at hhead
    have hcrash : serve L o none s = .crash → ∀ made e, Serves L o none s made e →
        e = .crashed := by
      intro hcrash made e hserves
      exact (hserves.unique (.crash hcrash)).2
    generalize hl : start.length = len at h hs
    cases len with
    | nan => cases h
    | frac below =>
      have hle : Num.le (.frac below) (s.drop (i + 4)).length = true := h
      refine .inl (hcrash ?_)
      rw [hs, serveBody, if_pos hle]
      rfl
    | infinite positive =>
      have hle : Num.le (.infinite positive) (s.drop (i + 4)).length = true := h
      refine .inl (hcrash ?_)
      rw [hs, serveBody, if_pos hle]
      rfl
    | int n => exact .inr (splits_here hi hstart hl h.1 h.2)
  | @later s i n start hi hstart hfit hn h ih =>
    obtain ⟨hle, packet', hserve⟩ := serveBody_taken start.packet hfit hn
    rcases ih with hcrash | hsplits
    · have hwhole : serve L o none s = .success packet' ((s.drop (i + 4)).drop n) := by
        have hhead := serve_head hi hstart (s.drop (i + 4))
        have hbody := hserve _ List.prefix_rfl
        rw [List.take_append_drop] at hhead hbody
        exact hhead.trans hbody
      refine .inl fun made e hserves => ?_
      obtain ⟨later, -, hlater⟩ := hserves.of_success hwhole
      exact hcrash later e hlater
    · exact .inr (hsplits.behind hi hstart hserve)

/-! ## The same however it is cut -/

theorem new_view : View new none [] := ⟨rfl, rfl, rfl, rfl, fun _ _ h => (by cases h)⟩

/-- However the input is cut into pieces, the calls are the same, and no error is raised. -/
def CutFree (L : Lua) (o : Options) (s : Bytes) : Prop :=
  ∀ xs ys : List Bytes, (∀ x ∈ xs, x ≠ []) → (∀ y ∈ ys, y ≠ []) → xs.flatten = s →
    ys.flatten = s → (feedAll L o xs).2.1 = (feedAll L o ys).2.1 ∧ (feedAll L o xs).2.2 = false

theorem cutFree_of_fits (L : Lua) (ho : o.client = false)
    (hlimit : s.length ≤ o.buflimit) (h : ¬ Misread L o s) : CutFree L o s := by
  intro xs ys hxs hys hx hy
  obtain ⟨made, e, hserves, hfold⟩ := feeds_serves L ho hxs new_view rfl
    (by rw [hx]; exact hlimit) (by rw [hx]; exact h) [] false
  obtain ⟨made', e', hserves', hfold'⟩ := feeds_serves L ho hys new_view rfl
    (by rw [hy]; exact hlimit) (by rw [hy]; exact h) [] false
  rw [hx] at hserves
  rw [hy] at hserves'
  obtain ⟨rfl, -⟩ := hserves.unique hserves'
  unfold feedAll
  rw [hfold, hfold']
  exact ⟨rfl, rfl⟩

theorem feedAll_one (L : Lua) (ho : o.client = false) (hs : s ≠ [])
    (hlimit : s.length ≤ o.buflimit) :
    ∃ made e, Serves L o none s made e ∧ (feedAll L o [s]).2.1 = made ∧
      (e = .crashed → (feedAll L o [s]).2.2 = true) := by
  obtain ⟨p', made, e, raised, hfeed, hserves, hleaves⟩ :=
    feed_serves L ho new_view hs hlimit [] false
  refine ⟨made, e, hserves, ?_, ?_⟩
  · rw [feedAll, List.foldl_cons, List.foldl_nil, hfeed]
    rfl
  · rintro rfl
    cases hleaves
    rw [feedAll, List.foldl_cons, List.foldl_nil, hfeed]
    rfl

theorem loops_grows {p : Parser} {out : Parser × List Call × Bool} (h : Loops L o log p calls out) :
    ∃ more, out.2.1 = calls ++ more := by
  induction h with
  | empty h => exact ⟨[], (List.append_nil _).symm⟩
  | stop hne h => exact ⟨[], (List.append_nil _).symm⟩
  | raise hne h => exact ⟨[], (List.append_nil _).symm⟩
  | next hne h rest ih => exact ih
  | raised hne h hc => cases hc
  | failure hne h hc => exact ⟨_, rfl⟩
  | success hne h hc rest ih =>
    obtain ⟨more, hmore⟩ := ih
    exact ⟨_, by rw [hmore, log, List.append_assoc]⟩

/-- No call is ever taken back. -/
theorem feedOne_grows (L : Lua) (o : Options) (fed : Parser × List Call × Bool) (data : Bytes) :
    ∃ more, (feedOne L o fed data).2.1 = fed.2.1 ++ more := by
  unfold feedOne feed
  split
  · exact ⟨[], (List.append_nil _).symm⟩
  · rename_i p calls raised hfeed
    split at hfeed
    · cases hfeed
      exact ⟨[], (List.append_nil _).symm⟩
    · simp only at hfeed
      split at hfeed
      · cases hfeed
        exact ⟨_, rfl⟩
      · obtain ⟨more, hmore⟩ := loops_grows (loop_loops hfeed)
        exact ⟨more, hmore⟩

theorem upto_ne_nil {n : ℤ} (hneg : n < 0) (h : -n ≤ s.length) : upto s n ≠ [] := by
  intro hnil
  have hlength := congrArg List.length hnil
  rw [upto, if_neg (by omega), List.length_take, List.length_nil] at hlength
  omega

theorem fits_of_cutFree (L : Lua) (ho : o.client = false)
    (hlimit : s.length ≤ o.buflimit) (h : CutFree L o s) : ¬ Misread L o s := by
  intro hmis
  have hne : s ≠ [] := by
    rintro rfl
    cases hmis with
    | here hi _ _ => cases hi
    | later hi _ _ _ _ => cases hi
  obtain ⟨made, e, hserves, hcalls, hraised⟩ := feedAll_one L ho hne hlimit
  rcases hmis.split with hcrash | ⟨s₁, s₂, before, packet, n, rfl, hne₁, hneg, hmany, hall, hpart⟩
  · have hsame := (h [s] [s] (by simpa using hne) (by simpa using hne) (by simp) (by simp)).2
    rw [hraised (hcrash made e hserves)] at hsame
    cases hsame
  · have hne₂ : s₂ ≠ [] := by
      rintro rfl
      rw [List.length_nil] at hmany
      omega
    have hlimit₁ : s₁.length ≤ o.buflimit := by
      rw [List.length_append] at hlimit
      omega
    obtain ⟨p', made₁, e₁, raised, hfeed, hserves₁, -⟩ :=
      feed_serves L ho new_view hne₁ hlimit₁ [] false
    obtain ⟨more, hmore⟩ := hall made e hserves
    obtain ⟨more₁, hmore₁⟩ := hpart made₁ e₁ hserves₁
    have hcut : ∃ rest, (feedAll L o [s₁, s₂]).2.1 = made₁ ++ rest := by
      rw [feedAll, List.foldl_cons, List.foldl_cons, List.foldl_nil, hfeed]
      exact feedOne_grows L o _ s₂
    obtain ⟨rest, hrest⟩ := hcut
    have hsame := (h [s₁ ++ s₂] [s₁, s₂] (by simpa using fun h => absurd h hne₁)
      (by simp [hne₁, hne₂]) (by simp) (by simp)).1
    rw [hcalls, hrest, hmore, hmore₁, List.append_assoc, List.append_cancel_left_eq,
      List.cons_append, List.cons_eq_cons] at hsame
    injection hsame.1 with hpacket
    injection hpacket with _ _ hbody
    exact upto_ne_nil hneg hmany (Option.some.inj hbody)

/-- How a request stream is cut does not matter exactly if no head is reached whose length does not
fit what follows it. -/
theorem cutFree_iff (L : Lua) (o : Options) {s : Bytes} (hlimit : s.length ≤ o.buflimit) :
    CutFree L (serverOptions o) s ↔ ¬ Misread L (serverOptions o) s :=
  ⟨fits_of_cutFree L rfl hlimit, cutFree_of_fits L rfl hlimit⟩

/-! ## Two requests -/

def smallOptions : Options := ⟨false, none, 1000, 2000⟩

/-- A request with a body before one without. -/
def posted : Bytes := "POST / HTTP/1.1\r\nContent-Length: 2\r\n\r\nabGET / HTTP/1.1\r\n\r\n".toList

theorem length_of_ok {e : Except Reason Start} {start : Start} {n : Num}
    (hn : e.toOption.map Start.length = some n) (he : e = .ok start) : start.length = n := by
  rw [he] at hn
  exact Option.some.inj hn

theorem not_misread_root :
    ¬ Misread plainLua (serverOptions smallOptions) "GET / HTTP/1.1\r\n\r\n".toList := by
  have hend : indexOf crlfcrlf "GET / HTTP/1.1\r\n\r\n".toList = some 14 := by decide +kernel
  rintro (⟨hi, hstart, h⟩ | ⟨hi, -, -, -, h⟩) <;> obtain rfl := Option.some.inj (hend.symm.trans hi)
  · rw [length_of_ok (by decide +kernel : _ = some (.int 0)) hstart] at h
    exact absurd h.1 (by decide)
  · have hrest : "GET / HTTP/1.1\r\n\r\n".toList.drop (14 + 4) = [] := by decide +kernel
    have hnone : ∀ i, indexOf crlfcrlf [] ≠ some i := by simp [indexOf, crlfcrlf]
    rw [hrest, List.drop_nil] at h
    rcases h with ⟨hi, -, -⟩ | ⟨hi, -, -, -, -⟩ <;> exact hnone _ hi

theorem not_misread_posted : ¬ Misread plainLua (serverOptions smallOptions) posted := by
  have hend : indexOf crlfcrlf posted = some 34 := by decide +kernel
  rintro (⟨hi, hstart, h⟩ | ⟨hi, hstart, -, hn, h⟩) <;>
    obtain rfl := Option.some.inj (hend.symm.trans hi) <;>
    have hlength := length_of_ok (by decide +kernel : _ = some (.int 2)) hstart
  · rw [hlength] at h
    exact absurd h.1 (by decide)
  · rw [hlength] at hn
    obtain rfl := Option.some.inj
      ((show Num.taken (.int 2) (posted.drop (34 + 4)).length = some 2 by decide +kernel).symm.trans hn)
    exact not_misread_root h

theorem cutFree_posted : CutFree plainLua (serverOptions smallOptions) posted :=
  (cutFree_iff plainLua smallOptions (by decide +kernel)).mpr not_misread_posted

/-- Numbers in decimal digits, perhaps after a minus sign. -/
def signedLua : Lua where
  tonumber s := match s with
    | '-' :: s => (plainLua.tonumber s).bind fun
        | .int n => some (.int (-n))
        | _ => none
    | s => plainLua.tonumber s
  urlParse _ := none

def negative : Bytes := "POST / HTTP/1.1\r\nContent-Length: -1\r\n\r\n".toList

def Call.body : Call → Option Bytes
  | .success packet => packet.body
  | .failure _ => none

theorem negative_length_depends_on_cut :
    ¬ CutFree signedLua (serverOptions smallOptions) (negative ++ "ab".toList) := by
  intro h
  have hsame := (h [negative ++ "ab".toList] [negative, "ab".toList] (by decide +kernel)
    (by decide +kernel) (by simp) (by simp)).1
  have hbodies := congrArg (List.map Call.body) hsame
  revert hbodies
  decide +kernel

end Prosody.Httpstream
