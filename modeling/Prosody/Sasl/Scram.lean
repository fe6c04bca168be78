import Mathlib.Data.Nat.Bitwise
import Prosody.Library.Pattern
import Prosody.Util.Base64

/-! # SCRAM-SHA-1

`util/sasl/scram.lua`: the exchange of challenge and response, up to the hash functions, the
preparation of strings and the credentials. The bytes of the exclusive or are gathered in a table
that all exchanges share. -/

namespace Prosody.Scram

open Pattern (Item Found)

abbrev Bytes := List UInt8

def bytes (s : String) : Bytes := s.toList.map fun c => UInt8.ofNat c.toNat

/-! ## The exclusive or -/

def xorMap : List ℕ :=
  [0, 1, 2, 3, 4, 5, 6, 7, 8, 9, 10, 11, 12, 13, 14, 15, 1, 0, 3, 2, 5, 4, 7, 6, 9, 8, 11, 10,
   13, 12, 15, 14, 2, 3, 0, 1, 6, 7, 4, 5, 10, 11, 8, 9, 14, 15, 12, 13, 3, 2, 1, 0, 7, 6, 5,
   4, 11, 10, 9, 8, 15, 14, 13, 12, 4, 5, 6, 7, 0, 1, 2, 3, 12, 13, 14, 15, 8, 9, 10, 11, 5,
   4, 7, 6, 1, 0, 3, 2, 13, 12, 15, 14, 9, 8, 11, 10, 6, 7, 4, 5, 2, 3, 0, 1, 14, 15, 12, 13,
   10, 11, 8, 9, 7, 6, 5, 4, 3, 2, 1, 0, 15, 14, 13, 12, 11, 10, 9, 8, 8, 9, 10, 11, 12, 13,
   14, 15, 0, 1, 2, 3, 4, 5, 6, 7, 9, 8, 11, 10, 13, 12, 15, 14, 1, 0, 3, 2, 5, 4, 7, 6, 10,
   11, 8, 9, 14, 15, 12, 13, 2, 3, 0, 1, 6, 7, 4, 5, 11, 10, 9, 8, 15, 14, 13, 12, 3, 2, 1,
   0, 7, 6, 5, 4, 12, 13, 14, 15, 8, 9, 10, 11, 4, 5, 6, 7, 0, 1, 2, 3, 13, 12, 15, 14, 9, 8,
   11, 10, 5, 4, 7, 6, 1, 0, 3, 2, 14, 15, 12, 13, 10, 11, 8, 9, 6, 7, 4, 5, 2, 3, 0, 1, 15,
   14, 13, 12, 11, 10, 9, 8, 7, 6, 5, 4, 3, 2, 1, 0]

/-- The body of the loop of `binaryXOR`. -/
def xorByte (x y : UInt8) : UInt8 :=
  let lowx := x.toNat % 16
  let lowy := y.toNat % 16
  let hix := (x.toNat - lowx) / 16
  let hiy := (y.toNat - lowy) / 16
  let lowr := xorMap.getD (lowx * 16 + lowy) 0
  let hir := xorMap.getD (hix * 16 + hiy) 0
  UInt8.ofNat (hir * 16 + lowr)

/-- The loop from position `i` on, and the table. It raises where the second string ends first. -/
def xorFrom (result : Bytes) (i : ℕ) : Bytes → Bytes → Bool × Bytes
  | [], _ => (true, result)
  | _ :: _, [] => (false, result)
  | x :: a, y :: b => xorFrom (result.take i ++ xorByte x y :: result.drop (i + 1)) (i + 1) a b

/-- `binaryXOR`, where the second argument may be `nil`: what it returns unless it raises, and the
table. -/
def binaryXOR (result a : Bytes) (b : Option Bytes) : Option Bytes × Bytes :=
  let (returns, result) := xorFrom result 0 a (b.getD [])
  (if returns then some result else none, result)

theorem xorMap_eq : xorMap = (List.range 256).map fun i => i / 16 ^^^ i % 16 := by decide +kernel

theorem xorMap_spec (a : ℕ) (ha : a < 16) (b : ℕ) (hb : b < 16) :
    xorMap.getD (a * 16 + b) 0 = a ^^^ b := by
  have hdiv : (a * 16 + b) / 16 = a := by omega
  have hmod : (a * 16 + b) % 16 = b := by omega
  rw [xorMap_eq, List.getD_eq_getElem?_getD, List.getElem?_map, List.getElem?_range (by omega),
    Option.map_some, Option.getD_some, hdiv, hmod]

theorem xorByte_eq (x y : UInt8) : xorByte x y = x ^^^ y := by
  have hx := x.toNat_lt
  have hy := y.toNat_lt
  have hlow : x.toNat % 16 ^^^ y.toNat % 16 = (x.toNat ^^^ y.toNat) % 16 :=
    (Nat.xor_mod_two_pow (n := 4)).symm
  have hhigh : x.toNat / 16 ^^^ y.toNat / 16 = (x.toNat ^^^ y.toNat) / 16 :=
    (Nat.xor_div_two_pow (n := 4)).symm
  have hdiv : ∀ n : ℕ, (n - n % 16) / 16 = n / 16 := fun n => by omega
  rw [← UInt8.toNat_inj, UInt8.toNat_xor, xorByte, hdiv, hdiv,
    xorMap_spec _ (by omega) _ (by omega), xorMap_spec _ (by omega) _ (by omega), hlow, hhigh,
    Nat.div_add_mod', UInt8.toNat_ofNat']
  have hlt : x.toNat ^^^ y.toNat < 2 ^ 8 := Nat.xor_lt_two_pow hx hy
  exact Nat.mod_eq_of_lt hlt

/-- The exclusive or of two strings, as long as the shorter one. -/
def xor (a b : Bytes) : Bytes := List.zipWith (· ^^^ ·) a b

variable {a : Bytes}

theorem xorFrom_of_lt (result : Bytes) (i : ℕ) {b : Bytes} (h : b.length < a.length) :
    (xorFrom result i a b).1 = false := by
  induction a generalizing result i b with
  | nil => exact absurd h (Nat.not_lt_zero _)
  | cons x a ih =>
    cases b with
    | nil => rfl
    | cons y b => exact ih _ _ (Nat.lt_of_succ_lt_succ h)

variable {result : Bytes}

theorem xorFrom_of_le {b : Bytes} {i : ℕ} (hi : i ≤ result.length) (h : a.length ≤ b.length) :
    xorFrom result i a b = (true, result.take i ++ xor a b ++ result.drop (i + a.length)) := by
  induction a generalizing result i b with
  | nil => simp [xorFrom, xor]
  | cons x a ih =>
    cases b with
    | nil => exact absurd h (Nat.not_succ_le_zero _)
    | cons y b =>
      have htake : (result.take i).length = i := List.length_take_of_le hi
      have hfirst : (result.take i ++ xorByte x y :: result.drop (i + 1)).take (i + 1) =
          result.take i ++ [x ^^^ y] := by
        rw [List.take_append, htake, List.take_of_length_le (by omega), xorByte_eq]
        simp
      have hlast : (result.take i ++ xorByte x y :: result.drop (i + 1)).drop
          (i + 1 + a.length) = result.drop (i + (a.length + 1)) := by
        rw [List.drop_append, htake, List.drop_of_length_le (by omega), List.nil_append,
          show i + 1 + a.length - i = a.length + 1 by omega, List.drop_succ_cons,
          List.drop_drop]
        congr 1
        omega
      rw [xorFrom, ih (by simp; omega) (Nat.le_of_succ_le_succ h), hfirst, hlast]
      simp [xor]

theorem length_xorFrom {b : Bytes} {i n : ℕ} (hi : i + a.length ≤ n)
    (hresult : result.length ≤ n) : (xorFrom result i a b).2.length ≤ n := by
  induction a generalizing result i b with
  | nil => exact hresult
  | cons x a ih =>
    cases b with
    | nil => exact hresult
    | cons y b =>
      rw [List.length_cons] at hi
      refine ih (by omega) ?_
      rw [List.length_append, List.length_cons, List.length_take, List.length_drop]
      omega

/-! ## The parameters -/

/-- What hash functions return. -/
abbrev Digest := { b : Bytes // b.length = 20 }

/-- `sha1`, `hmac_sha1`, `scram_Hi_sha1` and `saslprep`. -/
structure Crypto where
  H : Bytes → Digest
  HMAC : Bytes → Bytes → Digest
  Hi : Bytes → Bytes → ℕ → Bytes
  saslprep : Bytes → Option Bytes

structure Credential where
  storedKey : Bytes
  serverKey : Bytes
  iterationCount : ℕ
  salt : Bytes

/-- What is found under a username. -/
inductive Account (α : Type)
  | unknown | disabled
  | active (a : α)

inductive Backend
  | plain (lookup : Bytes → Account Bytes)
  | scramSha1 (lookup : Bytes → Account Credential)

/-- `self.profile`. Without `nodeprep` a username is not prepared. -/
structure Profile where
  cb : Option (Bytes → Option Bytes) := none
  nodeprep : Option (Bytes → Option Bytes)
  backend : Backend

/-- The results of `generate_uuid`. -/
structure Uuids where
  salt : Bytes
  nonce : Bytes

/-- The table after calls of `binaryXOR`, in whatever exchanges. -/
def tableAfter (calls : List (Digest × Option Bytes)) : Bytes :=
  calls.foldl (fun result call => (binaryXOR result call.1.1 call.2).2) []

theorem length_tableAfter (calls : List (Digest × Option Bytes)) :
    (tableAfter calls).length ≤ 20 := by
  have hrun : ∀ result : Bytes, result.length ≤ 20 →
      (calls.foldl (fun result call => (binaryXOR result call.1.1 call.2).2) result).length ≤
        20 := by
    induction calls with
    | nil => exact fun result h => h
    | cons call calls ih =>
      intro result h
      exact ih _ (length_xorFrom (by rw [Nat.zero_add, call.1.2]) h)
  exact hrun [] (Nat.zero_le 20)

/-- With a table of other exchanges, `binaryXOR` is the exclusive or for digests. -/
theorem binaryXOR_eq (hresult : result.length ≤ 20) (a : Digest) (b : Bytes) :
    (binaryXOR result a.1 (some b)).1 = if 20 ≤ b.length then some (xor a.1 b) else none := by
  rw [binaryXOR, Option.getD_some]
  split_ifs with hb
  · rw [xorFrom_of_le (Nat.zero_le _) (by rw [a.2]; exact hb), a.2,
      List.drop_of_length_le (by omega), List.append_nil]
    rfl
  · have hlt := xorFrom_of_lt result 0 (show b.length < a.1.length by rw [a.2]; omega)
    simp [hlt]

theorem binaryXOR_none (result : Bytes) (a : Digest) : (binaryXOR result a.1 none).1 = none := by
  have hlt := xorFrom_of_lt result 0
    (show ([] : Bytes).length < a.1.length by rw [a.2]; exact Nat.zero_lt_succ _)
  simp [binaryXOR, hlt]

/-! ## The messages -/

def comma : UInt8 := 44

/-- `[^,]*` as a capture. -/
def field : Item UInt8 := .group [.many (· != comma)]

def char (c : Char) (d : UInt8) : Bool := d == UInt8.ofNat c.toNat

/-- `([pny])=?([^,]*),([^,]*),` -/
def headerPattern : List (Item UInt8) :=
  [.group [.one fun c => char 'p' c || char 'n' c || char 'y' c], .opt (char '='), field,
    .one (· == comma), field, .one (· == comma)]

/-- `m?=?[^,]*,?n=([^,]*),r=([^,]*),?.*` -/
def barePattern : List (Item UInt8) :=
  .opt (char 'm') :: .opt (char '=') :: .many (· != comma) :: .opt (· == comma) ::
    (Pattern.word (bytes "n=") ++ field :: (Pattern.word (bytes ",r=") ++
      [field, .opt (· == comma), .many fun _ => true]))

/-- `^(([pny])=?([^,]*),([^,]*),)(m?=?[^,]*,?n=([^,]*),r=([^,]*),?.*)$` -/
def firstPattern : List (Item UInt8) := [.group headerPattern, .group barePattern, .stop]

/-- `(c=([^,]*),r=([^,]*),?.-),p=(.*)$` -/
def finalPattern : List (Item UInt8) :=
  .group (Pattern.word (bytes "c=") ++ field :: (Pattern.word (bytes ",r=") ++
      [field, .opt (· == comma), .few fun _ => true])) ::
    (Pattern.word (bytes ",p=") ++ [.group [.many fun _ => true], .stop])

structure FirstMessage where
  gs2Header : Bytes
  gs2CbindFlag : Bytes
  gs2CbindName : Bytes
  authzid : Bytes
  clientFirstMessageBare : Bytes
  username : Bytes
  clientnonce : Bytes

structure FinalMessage where
  withoutProof : Bytes
  channelbinding : Bytes
  nonce : Bytes
  proof : Bytes

def FirstMessage.ofCaptures : List Bytes → Option FirstMessage
  | [header, flag, name, authzid, bare, username, nonce] =>
    some ⟨header, flag, name, authzid, bare, username, nonce⟩
  | _ => none

def FinalMessage.ofCaptures : List Bytes → Option FinalMessage
  | [withoutProof, channelbinding, nonce, proof] =>
    some ⟨withoutProof, channelbinding, nonce, proof⟩
  | _ => none

def readFirst (message : Bytes) : Option FirstMessage :=
  (Pattern.anchored firstPattern message).bind fun f => FirstMessage.ofCaptures f.captures

/-- The pattern may match behind some other text, which is returned too. -/
def readFinal (message : Bytes) : Option (Bytes × FinalMessage) :=
  (Pattern.search finalPattern message).bind fun (before, f) =>
    (FinalMessage.ofCaptures f.captures).map (before, ·)

/-- The reading of a message as a whole. -/
def readWhole (message : Bytes) : Option FinalMessage :=
  (Pattern.anchored finalPattern message).bind fun f => FinalMessage.ofCaptures f.captures

theorem comma_notMem (h : ∀ c ∈ a, (c != comma) = true) : comma ∉ a := by
  intro hmem
  simpa using h comma hmem

theorem comma_eq {p : Bytes} {c : UInt8} (h : (c == comma) = true) (hp : p = [c]) :
    p = [comma] := by
  rw [hp, eq_of_beq h]

variable {f : Found UInt8}

theorem headerPattern_spec {s : Bytes} (h : f ∈ Pattern.found headerPattern s) :
    ∃ flag eq name authzid, f.captures = [flag, name, authzid] ∧
      f.text = flag ++ eq ++ name ++ [comma] ++ authzid ++ [comma] ∧
        comma ∉ name ∧ comma ∉ authzid := by
  obtain ⟨f1, h1, g1, k1, rfl⟩ := Pattern.mem_found_cons.mp h
  obtain ⟨f2, h2, g2, k2, rfl⟩ := Pattern.mem_found_cons.mp k1
  obtain ⟨f3, h3, g3, k3, rfl⟩ := Pattern.mem_found_cons.mp k2
  obtain ⟨f4, h4, g4, k4, rfl⟩ := Pattern.mem_found_cons.mp k3
  obtain ⟨f5, h5, f6, k5, rfl⟩ := Pattern.mem_found_cons.mp k4
  have hflag := Pattern.group_one_captures h1
  have heq := Pattern.opt_captures h2
  obtain ⟨hname, hname'⟩ := Pattern.group_many_captures h3
  obtain ⟨hcomma, c, hc, hctext⟩ := Pattern.one_captures h4
  obtain ⟨hauthzid, hauthzid'⟩ := Pattern.group_many_captures h5
  obtain ⟨hlast, d, hd, hdtext⟩ := Pattern.one_captures (Pattern.mem_found_singleton.mp k5)
  refine ⟨f1.text, f2.text, f3.text, f5.text, ?_, ?_, comma_notMem hname',
    comma_notMem hauthzid'⟩
  · simp only [Found.append, hflag, heq, hname, hcomma, hauthzid, hlast, List.nil_append,
      List.cons_append]
  · simp only [Found.append, comma_eq hc hctext, comma_eq hd hdtext, List.append_assoc]

theorem barePattern_spec {s : Bytes} (h : f ∈ Pattern.found barePattern s) :
    ∃ username clientnonce, f.captures = [username, clientnonce] := by
  obtain ⟨f1, h1, g1, k1, rfl⟩ := Pattern.mem_found_cons.mp h
  obtain ⟨f2, h2, g2, k2, rfl⟩ := Pattern.mem_found_cons.mp k1
  obtain ⟨f3, h3, g3, k3, rfl⟩ := Pattern.mem_found_cons.mp k2
  obtain ⟨f4, h4, g4, k4, rfl⟩ := Pattern.mem_found_cons.mp k3
  obtain ⟨t, g5, k5, rfl⟩ := Pattern.mem_word_append k4
  obtain ⟨f5, h5, g6, k6, rfl⟩ := Pattern.mem_found_cons.mp k5
  obtain ⟨t, g7, k7, rfl⟩ := Pattern.mem_word_append k6
  obtain ⟨f6, h6, g8, k8, rfl⟩ := Pattern.mem_found_cons.mp k7
  obtain ⟨f7, h7, f8, k9, rfl⟩ := Pattern.mem_found_cons.mp k8
  have h8 := Pattern.many_captures (Pattern.mem_found_singleton.mp k9)
  refine ⟨f5.text, f6.text, ?_⟩
  simp only [Found.append, Pattern.opt_captures h1, Pattern.opt_captures h2,
    (Pattern.many_captures h3).1, Pattern.opt_captures h4, (Pattern.group_many_captures h5).1,
    (Pattern.group_many_captures h6).1, Pattern.opt_captures h7, h8.1, List.nil_append,
    List.cons_append]

theorem firstPattern_spec {s : Bytes} (h : f ∈ Pattern.found firstPattern s) :
    ∃ flag eq name authzid bare username clientnonce,
      f.captures = [flag ++ eq ++ name ++ [comma] ++ authzid ++ [comma], flag, name, authzid, bare,
        username, clientnonce] ∧ s = flag ++ eq ++ name ++ [comma] ++ authzid ++ [comma] ++ bare ∧
        comma ∉ name ∧ comma ∉ authzid := by
  have hs := Pattern.text_append_rest h
  obtain ⟨f1, h1, g1, k1, rfl⟩ := Pattern.mem_found_cons.mp h
  obtain ⟨f2, h2, f3, k2, rfl⟩ := Pattern.mem_found_cons.mp k1
  obtain rfl := Pattern.stop_spec (Pattern.mem_found_singleton.mp k2)
  obtain ⟨header, hheader, rfl⟩ := Pattern.mem_group.mp h1
  obtain ⟨bare, hbare, rfl⟩ := Pattern.mem_group.mp h2
  obtain ⟨flag, eq, name, authzid, hcaptures, htext, hname, hauthzid⟩ := headerPattern_spec hheader
  obtain ⟨username, clientnonce, hbare⟩ := barePattern_spec hbare
  refine ⟨flag, eq, name, authzid, bare.text, username, clientnonce, ?_, ?_, hname, hauthzid⟩
  · simp only [Found.append, Found.capture, hcaptures, htext, hbare, List.cons_append,
      List.nil_append, List.append_nil]
  · rw [hs, ← htext]
    simp only [Found.append, Found.capture, List.append_nil]

/-! ## The handler -/

inductive Reply
  | challenge (text : Bytes)
  | success (text : Bytes)
  | failure (condition : String) (text : Option String := none)
  | raises
  deriving DecidableEq

/-- `self.state` -/
structure Exchange where
  gs2Header : Bytes
  gs2CbindName : Option Bytes
  username : Bytes
  nonce : Bytes
  serverKey : Bytes
  storedKey : Bytes
  clientFirstMessageBare : Bytes
  serverFirstMessage : Bytes

structure Handler where
  state : Option Exchange := none
  username : Option Bytes := none

/-- No `=` but in `=2C` and `=3D`. -/
def wellEscaped : Bytes → Bool
  | [] => true
  | c :: s =>
    match c == 61, s with
    | true, a :: b :: s => ([a, b] == bytes "2C" || [a, b] == bytes "3D") && wellEscaped s
    | true, _ => false
    | false, s => wellEscaped s

/-- `gsub` of three bytes by one. -/
def unescape (w : Bytes) (c : UInt8) : Bytes → Bytes
  | x :: y :: z :: s =>
    if [x, y, z] = w then c :: unescape w c s else x :: unescape w c (y :: z :: s)
  | s => s

def validateUsername (c : Crypto) (nodeprep : Option (Bytes → Option Bytes)) (username : Bytes) :
    Option Bytes :=
  if wellEscaped username then
    let username := unescape (bytes "=3D") 61 (unescape (bytes "=2C") comma username)
    ((c.saslprep username).bind fun username =>
      match nodeprep with
      | some nodeprep => nodeprep username
      | none => some username).filter (· ≠ [])
  else none

def defaultI : ℕ := 4096

/-- `getAuthenticationDatabaseSHA1` -/
def authenticationDatabase (c : Crypto) (password salt : Bytes) (iterationCount : ℕ) :
    Credential :=
  let saltedPassword := c.Hi password salt iterationCount
  { storedKey := c.H (c.HMAC saltedPassword (bytes "Client Key"))
    serverKey := c.HMAC saltedPassword (bytes "Server Key")
    iterationCount := iterationCount
    salt := salt }

/-- The credentials of a username, or why there are none. -/
def retrieve (c : Crypto) (p : Profile) (username salt : Bytes) : Except Reply Credential :=
  match p.backend with
  | .plain lookup =>
    match lookup username with
    | .unknown => .error (.failure "not-authorized")
    | .disabled => .error (.failure "account-disabled")
    | .active password =>
      match c.saslprep password with
      | none => .error (.failure "not-authorized" (some "Invalid password."))
      | some password => .ok (authenticationDatabase c password salt defaultI)
  | .scramSha1 lookup =>
    match lookup username with
    | .unknown => .error (.failure "not-authorized")
    | .disabled => .error (.failure "account-disabled")
    | .active credential => .ok credential

def isP (m : FirstMessage) : Bool := m.gs2CbindFlag == bytes "p"

/-- `gs2_cbind_name` once it is clear whether there is channel binding. -/
def negotiated (p : Profile) (m : FirstMessage) : Option Bytes :=
  if p.cb.isSome && isP m then some m.gs2CbindName else none

def bindingData (p : Profile) (name : Bytes) : Option Bytes := p.cb.bind (· name)

/-- The message asks for something else than what there is. -/
def misbound (p : Profile) (m : FirstMessage) : Option Reply :=
  if p.cb.isSome && m.gs2CbindFlag == bytes "y" then some (.failure "malformed-request")
  else if p.cb.isSome && isP m && (bindingData p m.gs2CbindName).isNone then
    some (.failure "malformed-request" (some "Proposed channel binding type isn't supported."))
  else none

def decimal (n : ℕ) : Bytes := bytes (toString n)

def serverFirstMessage (nonce : Bytes) (k : Credential) : Bytes :=
  bytes "r=" ++ nonce ++ bytes ",s=" ++ Base64.encode k.salt ++ bytes ",i=" ++
    decimal k.iterationCount

def exchange (p : Profile) (u : Uuids) (m : FirstMessage) (username : Bytes) (k : Credential) :
    Exchange :=
  let nonce := m.clientnonce ++ u.nonce
  { gs2Header := m.gs2Header
    gs2CbindName := negotiated p m
    username := username
    nonce := nonce
    serverKey := k.serverKey
    storedKey := k.storedKey
    clientFirstMessageBare := m.clientFirstMessageBare
    serverFirstMessage := serverFirstMessage nonce k }

/-- `client_first_message` -/
def processFirst (c : Crypto) (p : Profile) (u : Uuids) (h : Handler) (message : Bytes) :
    Reply × Handler :=
  match readFirst message with
  | none => (.failure "malformed-request", h)
  | some m =>
    match misbound p m with
    | some reply => (reply, h)
    | none =>
      match validateUsername c p.nodeprep m.username with
      | none => (.failure "malformed-request" (some "Invalid username."), h)
      | some username =>
        match retrieve c p username u.salt with
        | .error reply => (reply, { h with username := some username })
        | .ok k =>
          let x := exchange p u m username k
          (.challenge x.serverFirstMessage,
            { h with username := some username, state := some x })

/-- `our_client_gs2_header`, which does not exist when there is no function for the channel
binding. -/
def ourHeader (p : Profile) (x : Exchange) : Option Bytes :=
  match x.gs2CbindName with
  | none => some x.gs2Header
  | some name => (bindingData p name).map (x.gs2Header ++ ·)

def authMessage (x : Exchange) (m : FinalMessage) : Bytes :=
  x.clientFirstMessageBare ++ bytes "," ++ x.serverFirstMessage ++ bytes "," ++ m.withoutProof

/-- `client_final_message` -/
def processFinal (c : Crypto) (p : Profile) (result : Bytes) (x : Exchange) (message : Bytes) :
    Reply × Bytes :=
  match readFinal message with
  | none =>
    (.failure "malformed-request" (some "Missing an attribute(p, r or c) in SASL message."),
      result)
  | some (_, m) =>
    match ourHeader p x with
    | none => (.raises, result)
    | some header =>
      if Base64.decode m.channelbinding ≠ some header then
        (.failure "malformed-request" (some "Invalid channel binding value."), result)
      else if m.nonce ≠ x.nonce then
        (.failure "malformed-request" (some "Wrong nonce in client-final-message."), result)
      else
        let clientSignature := c.HMAC x.storedKey (authMessage x m)
        match binaryXOR result clientSignature.1 (Base64.decode m.proof) with
        | (none, result) => (.raises, result)
        | (some clientKey, result) =>
          let serverSignature := c.HMAC x.serverKey (authMessage x m)
          if x.storedKey = (c.H clientKey).1 then
            (.success (bytes "v=" ++ Base64.encode serverSignature.1), result)
          else
            (.failure "not-authorized" (some
              "The response provided by the client doesn't match the one we calculated."),
              result)

/-- `scram_hash`, with the table that `binaryXOR` uses. -/
def scramHash (c : Crypto) (p : Profile) (u : Uuids) (result : Bytes) (h : Handler)
    (message : Bytes) : Reply × Handler × Bytes :=
  if message = [] then (.failure "malformed-request", h, result)
  else
    match h.state with
    | none =>
      let (reply, h) := processFirst c p u h message
      (reply, h, result)
    | some x =>
      let (reply, result) := processFinal c p result x message
      (reply, h, result)

/-! ## What the exchange is for -/

/-- What a challenge leaves behind: the parts of the first message, the nonce of the challenge and
the keys of the account. -/
structure Recorded (c : Crypto) (p : Profile) (u : Uuids) (message text : Bytes) (x : Exchange) :
    Prop where
  message_eq : message = x.gs2Header ++ x.clientFirstMessageBare
  header : ∃ flag eq name authzid, comma ∉ name ∧ comma ∉ authzid ∧
    x.gs2Header = flag ++ eq ++ name ++ [comma] ++ authzid ++ [comma] ∧
      x.gs2CbindName = if p.cb.isSome && flag == bytes "p" then some name else none
  negotiated : (ourHeader p x).isSome
  keys : ∃ k, retrieve c p x.username u.salt = .ok k ∧ x.storedKey = k.storedKey ∧
    x.serverKey = k.serverKey ∧ x.serverFirstMessage = serverFirstMessage x.nonce k
  text_eq : text = x.serverFirstMessage

/-- The channel binding of a message is the header of the first message, with the data of the
channel where that was negotiated, and its nonce is that of the challenge. -/
def Agrees (p : Profile) (x : Exchange) (m : FinalMessage) : Prop :=
  Base64.decode m.channelbinding = ourHeader p x ∧ m.nonce = x.nonce

def Solves (c : Crypto) (x : Exchange) (m : FinalMessage) (proof : Bytes) : Prop :=
  (c.H (xor (c.HMAC x.storedKey (authMessage x m)).1 proof)).1 = x.storedKey

/-- The whole message shows that the client knows the key. -/
def Proved (c : Crypto) (p : Profile) (x : Exchange) (message : Bytes) : Prop :=
  ∃ m proof, readWhole message = some m ∧ Agrees p x m ∧ Base64.decode m.proof = some proof ∧
    proof.length = 20 ∧ Solves c x m proof

/-- An exchange of two messages, with what other exchanges do to the table in between. -/
structure Dialogue where
  first : Bytes
  final : Bytes
  calls : List (Digest × Option Bytes)

section

variable (c : Crypto) (p : Profile) (u : Uuids) (d : Dialogue)

def firstReply : Reply := (scramHash c p u [] {} d.first).1

def afterFirst : Handler := (scramHash c p u [] {} d.first).2.1

def finalReply : Reply :=
  (scramHash c p u (tableAfter d.calls) (afterFirst c p u d) d.final).1

/-- Both messages get an answer, and the second one has success when it proves the key. -/
structure Right : Prop where
  answered : firstReply c p u d ≠ .raises ∧ finalReply c p u d ≠ .raises
  recorded : ∀ text, firstReply c p u d = .challenge text →
    ∃ x, (afterFirst c p u d).state = some x ∧ Recorded c p u d.first text x
  success_iff : (∃ text, finalReply c p u d = .success text) ↔
    ∃ text x, firstReply c p u d = .challenge text ∧ (afterFirst c p u d).state = some x ∧
      Proved c p x d.final

end

/-- Where channel binding and nonce are right, the proof is base64 of twenty bytes at least, and
where those are right too there is nothing besides them, neither behind them nor in front of the
message. -/
def Whole (c : Crypto) (p : Profile) (x : Exchange) (message : Bytes) : Prop :=
  ∀ before m, readFinal message = some (before, m) → Agrees p x m →
    ∃ proof, Base64.decode m.proof = some proof ∧ 20 ≤ proof.length ∧
      (Solves c x m proof → before = [] ∧ proof.length = 20)

/-! ## The first message -/

section

variable {c : Crypto} {p : Profile} {u : Uuids}

variable {message : Bytes} {m : FirstMessage}

theorem readFirst_spec (h : readFirst message = some m) :
    message = m.gs2Header ++ m.clientFirstMessageBare ∧
      ∃ eq, comma ∉ m.gs2CbindName ∧ comma ∉ m.authzid ∧ m.gs2Header =
        m.gs2CbindFlag ++ eq ++ m.gs2CbindName ++ [comma] ++ m.authzid ++ [comma] := by
  obtain ⟨f, hf, hm⟩ := Option.bind_eq_some_iff.mp h
  obtain ⟨flag, eq, name, authzid, bare, username, nonce, hcaptures, htext, hname, hauthzid⟩ :=
    firstPattern_spec (Pattern.anchored_mem hf)
  rw [hcaptures] at hm
  obtain rfl := Option.some.inj hm
  exact ⟨htext, eq, hname, hauthzid, rfl⟩

theorem retrieve_error {username salt : Bytes} {reply : Reply}
    (h : retrieve c p username salt = .error reply) : ∃ condition text,
      reply = .failure condition text := by
  unfold retrieve at h
  split at h <;> split at h <;> (try split at h) <;> cases h <;> exact ⟨_, _, rfl⟩

theorem misbound_failure {reply : Reply} (h : misbound p m = some reply) :
    ∃ condition text, reply = .failure condition text := by
  unfold misbound at h
  split_ifs at h <;> cases h <;> exact ⟨_, _, rfl⟩

theorem ourHeader_isSome {username : Bytes} {k : Credential}
    (h : misbound p m = none) : (ourHeader p (exchange p u m username k)).isSome := by
  unfold misbound at h
  unfold ourHeader exchange negotiated
  split_ifs at h with hy hp
  cases hneg : p.cb.isSome && isP m with
  | false => rfl
  | true =>
    have hdata : bindingData p m.gs2CbindName ≠ none := by simpa [hneg] using hp
    simpa using Option.isSome_iff_ne_none.mpr hdata

/-- The first message is answered by a failure, or by a challenge that is recorded. -/
theorem processFirst_spec (h : Handler) (message : Bytes) (hstate : h.state = none) :
    (∃ condition text, (processFirst c p u h message).1 = .failure condition text ∧
      (processFirst c p u h message).2.state = none) ∨
    ∃ text x, (processFirst c p u h message).1 = .challenge text ∧
      (processFirst c p u h message).2.state = some x ∧ Recorded c p u message text x := by
  unfold processFirst
  cases hread : readFirst message with
  | none => exact .inl ⟨_, _, rfl, hstate⟩
  | some m =>
    dsimp only
    cases hbound : misbound p m with
    | some reply =>
      obtain ⟨condition, text, rfl⟩ := misbound_failure hbound
      exact .inl ⟨_, _, rfl, hstate⟩
    | none =>
      dsimp only
      cases hname : validateUsername c p.nodeprep m.username with
      | none => exact .inl ⟨_, _, rfl, hstate⟩
      | some username =>
        dsimp only
        cases hkeys : retrieve c p username u.salt with
        | error reply =>
          obtain ⟨condition, text, rfl⟩ := retrieve_error hkeys
          exact .inl ⟨_, _, rfl, hstate⟩
        | ok k =>
          obtain ⟨htext, eq, hcomma, hauthzid, hheader⟩ := readFirst_spec hread
          exact .inr ⟨_, _, rfl, rfl,
            { message_eq := htext
              header := ⟨m.gs2CbindFlag, eq, m.gs2CbindName, m.authzid, hcomma, hauthzid,
                hheader, rfl⟩
              negotiated := ourHeader_isSome hbound
              keys := ⟨k, hkeys, rfl, rfl, rfl⟩
              text_eq := rfl }⟩

/-! ## The second message -/

theorem processFinal_of_agrees {result : Bytes} {x : Exchange} {before : Bytes}
    {m : FinalMessage} (hresult : result.length ≤ 20) (hx : (ourHeader p x).isSome)
    (hread : readFinal message = some (before, m)) (hagrees : Agrees p x m) :
    (processFinal c p result x message).1 = match Base64.decode m.proof with
      | none => .raises
      | some proof => if 20 ≤ proof.length then
          if x.storedKey = (c.H (xor (c.HMAC x.storedKey (authMessage x m)).1 proof)).1 then
            .success (bytes "v=" ++ Base64.encode (c.HMAC x.serverKey (authMessage x m)).1)
          else .failure "not-authorized" (some
            "The response provided by the client doesn't match the one we calculated.")
        else .raises := by
  obtain ⟨header, hheader⟩ := Option.isSome_iff_exists.mp hx
  obtain ⟨hbinding, hnonce⟩ := hagrees
  unfold processFinal
  rw [hread]
  dsimp only
  rw [hheader]
  dsimp only
  rw [hbinding, hheader, if_neg (not_not_intro rfl), if_neg (not_not_intro hnonce)]
  cases hproof : Base64.decode m.proof with
  | none =>
    have hraise := binaryXOR_none result (c.HMAC x.storedKey (authMessage x m))
    cases hpair : binaryXOR result (c.HMAC x.storedKey (authMessage x m)).1 none with
    | mk value table =>
      rw [hpair] at hraise
      obtain rfl : value = none := hraise
      rfl
  | some proof =>
    have hxor := binaryXOR_eq hresult (c.HMAC x.storedKey (authMessage x m)) proof
    cases hpair : binaryXOR result (c.HMAC x.storedKey (authMessage x m)).1 (some proof) with
    | mk value table =>
      rw [hpair] at hxor
      dsimp only at hxor ⊢
      by_cases hlength : 20 ≤ proof.length
      · rw [if_pos hlength] at hxor
        rw [hxor, if_pos hlength]
        dsimp only
        split_ifs <;> rfl
      · rw [if_neg hlength] at hxor
        rw [hxor, if_neg hlength]

theorem processFinal_of_not_agrees (c : Crypto) (result : Bytes) {x : Exchange}
    (hx : (ourHeader p x).isSome)
    (h : ∀ before m, readFinal message = some (before, m) → ¬Agrees p x m) :
    ∃ condition text, (processFinal c p result x message).1 = .failure condition text := by
  obtain ⟨header, hheader⟩ := Option.isSome_iff_exists.mp hx
  unfold processFinal
  cases hread : readFinal message with
  | none => exact ⟨_, _, rfl⟩
  | some found =>
    obtain ⟨before, m⟩ := found
    dsimp only
    rw [hheader]
    dsimp only
    split_ifs with hbinding hnonce
    · exact ⟨_, _, rfl⟩
    · exact ⟨_, _, rfl⟩
    · refine absurd ⟨?_, not_not.mp hnonce⟩ (h before m hread)
      rw [hheader]
      exact not_not.mp hbinding

/-- The search finds the whole message, or it skips something. -/
theorem readFinal_nil {m : FinalMessage} :
    readFinal message = some ([], m) ↔ readWhole message = some m := by
  constructor
  · intro h
    obtain ⟨⟨before, f⟩, hf, hm⟩ := Option.bind_eq_some_iff.mp h
    obtain ⟨m', hm', heq⟩ := Option.map_eq_some_iff.mp hm
    obtain ⟨rfl, rfl⟩ := Prod.mk.inj heq
    exact Option.bind_eq_some_iff.mpr ⟨f, Pattern.search_nil.mp hf, hm'⟩
  · intro h
    obtain ⟨f, hf, hm⟩ := Option.bind_eq_some_iff.mp h
    refine Option.bind_eq_some_iff.mpr ⟨([], f), Pattern.search_nil.mpr hf, ?_⟩
    exact Option.map_eq_some_iff.mpr ⟨m, hm, rfl⟩

section

variable {x : Exchange} {message before : Bytes} {m : FinalMessage}

theorem proved_iff (hread : readFinal message = some (before, m)) (hagrees : Agrees p x m) :
    Proved c p x message ↔ before = [] ∧ ∃ proof, Base64.decode m.proof = some proof ∧
      proof.length = 20 ∧ Solves c x m proof := by
  constructor
  · rintro ⟨m', proof, hwhole, -, hproof, hlength, hkey⟩
    obtain ⟨rfl, rfl⟩ :=
      Prod.mk.inj (Option.some.inj (hread.symm.trans (readFinal_nil.mpr hwhole)))
    exact ⟨rfl, proof, hproof, hlength, hkey⟩
  · rintro ⟨rfl, proof, hproof, hlength, hkey⟩
    exact ⟨m, proof, readFinal_nil.mp hread, hagrees, hproof, hlength, hkey⟩

theorem whole_iff (hread : readFinal message = some (before, m)) (hagrees : Agrees p x m) :
    Whole c p x message ↔ ∃ proof, Base64.decode m.proof = some proof ∧ 20 ≤ proof.length ∧
      (Solves c x m proof → before = [] ∧ proof.length = 20) := by
  constructor
  · intro h
    exact h before m hread hagrees
  · rintro h before' m' hread' -
    obtain ⟨rfl, rfl⟩ := Prod.mk.inj (Option.some.inj (hread.symm.trans hread'))
    exact h

/-- The second answer is right exactly when the message is whole. -/
theorem processFinal_right_iff {result : Bytes} (hresult : result.length ≤ 20)
    (hx : (ourHeader p x).isSome) :
    ((processFinal c p result x message).1 ≠ .raises ∧
      ((∃ text, (processFinal c p result x message).1 = .success text) ↔
        Proved c p x message)) ↔ Whole c p x message := by
  by_cases h : ∃ before m, readFinal message = some (before, m) ∧ Agrees p x m
  · obtain ⟨before, m, hread, hagrees⟩ := h
    rw [processFinal_of_agrees hresult hx hread hagrees, proved_iff hread hagrees,
      whole_iff hread hagrees]
    cases hproof : Base64.decode m.proof with
    | none => simp
    | some proof =>
      dsimp only
      by_cases hlength : 20 ≤ proof.length
      · rw [if_pos hlength]
        by_cases hkey : Solves c x m proof
        · rw [if_pos (Eq.symm hkey)]
          simp [hlength, hkey]
        · rw [if_neg fun heq => hkey (Eq.symm heq)]
          simp [hlength, hkey]
      · simp [hlength]
  · have hnot : ∀ before m, readFinal message = some (before, m) → ¬Agrees p x m :=
      fun before m hread hagrees => h ⟨before, m, hread, hagrees⟩
    obtain ⟨condition, text, hreply⟩ :=
      processFinal_of_not_agrees c result hx hnot
    have hwhole : Whole c p x message := fun before m hread hagrees =>
      absurd hagrees (hnot before m hread)
    have hproved : ¬Proved c p x message := by
      rintro ⟨m, proof, hread, hagrees, -⟩
      exact hnot [] m (readFinal_nil.mpr hread) hagrees
    simp [hreply, hwhole, hproved]

end

end

/-! ## The whole exchange -/

theorem firstReply_spec (c : Crypto) (p : Profile) (u : Uuids) (d : Dialogue) :
    (∃ condition text, firstReply c p u d = .failure condition text ∧
      (afterFirst c p u d).state = none) ∨
    ∃ text x, firstReply c p u d = .challenge text ∧ (afterFirst c p u d).state = some x ∧
      Recorded c p u d.first text x := by
  unfold firstReply afterFirst scramHash
  split_ifs
  · exact .inl ⟨_, _, rfl, rfl⟩
  · exact processFirst_spec {} d.first rfl

theorem readFinal_empty : readFinal [] = none := by decide

section

variable {c : Crypto} {p : Profile} {u : Uuids} {d : Dialogue}

/-- Without a challenge the second message is one more first message. -/
theorem right_of_state_none {condition : String} {text : Option String}
    (hfirst : firstReply c p u d = .failure condition text)
    (hstate : (afterFirst c p u d).state = none) : Right c p u d := by
  have hsecond : (∃ condition text, finalReply c p u d = .failure condition text) ∨
      ∃ text, finalReply c p u d = .challenge text := by
    unfold finalReply scramHash
    rw [hstate]
    split_ifs
    · exact .inl ⟨_, _, rfl⟩
    · obtain ⟨condition, text, hreply, -⟩ | ⟨text, x, hreply, -, -⟩ :=
        processFirst_spec (c := c) (p := p) (u := u) (afterFirst c p u d) d.final hstate
      · exact .inl ⟨condition, text, hreply⟩
      · exact .inr ⟨text, hreply⟩
  refine ⟨⟨?_, ?_⟩, ?_, ?_, ?_⟩
  · rw [hfirst]
    exact Reply.noConfusion
  · obtain ⟨condition, text, h⟩ | ⟨text, h⟩ := hsecond <;> rw [h] <;> exact Reply.noConfusion
  · intro text' htext
    cases hfirst.symm.trans htext
  · rintro ⟨text', htext⟩
    obtain ⟨condition, text, h⟩ | ⟨text, h⟩ := hsecond <;> cases h.symm.trans htext
  · rintro ⟨text', x, htext, -⟩
    cases hfirst.symm.trans htext

theorem finalReply_right_iff {x : Exchange} (hstate : (afterFirst c p u d).state = some x)
    (hx : (ourHeader p x).isSome) :
    (finalReply c p u d ≠ .raises ∧
      ((∃ text, finalReply c p u d = .success text) ↔ Proved c p x d.final)) ↔
        Whole c p x d.final := by
  unfold finalReply scramHash
  rw [hstate]
  split_ifs with hempty
  · have hwhole : Whole c p x d.final := by
      intro before m hread
      rw [hempty, readFinal_empty] at hread
      cases hread
    have hproved : ¬Proved c p x d.final := by
      rintro ⟨m, proof, hread, -⟩
      rw [← readFinal_nil, hempty, readFinal_empty] at hread
      cases hread
    simp [hwhole, hproved]
  · exact processFinal_right_iff (length_tableAfter d.calls) hx

theorem right_iff_of_state_some {text : Bytes} {x : Exchange}
    (hfirst : firstReply c p u d = .challenge text)
    (hstate : (afterFirst c p u d).state = some x)
    (hrecorded : Recorded c p u d.first text x) : Right c p u d ↔ Whole c p x d.final := by
  rw [← finalReply_right_iff hstate hrecorded.negotiated]
  constructor
  · intro h
    refine ⟨h.answered.2, h.success_iff.trans ⟨?_, ?_⟩⟩
    · rintro ⟨text', x', -, hstate', hproved⟩
      obtain rfl := Option.some.inj (hstate.symm.trans hstate')
      exact hproved
    · intro hproved
      exact ⟨text, x, hfirst, hstate, hproved⟩
  · rintro ⟨hraises, hsuccess⟩
    refine ⟨⟨by rw [hfirst]; exact Reply.noConfusion, hraises⟩, ?_, hsuccess.trans ⟨?_, ?_⟩⟩
    · intro text' htext
      obtain rfl := Reply.challenge.inj (hfirst.symm.trans htext)
      exact ⟨x, hstate, hrecorded⟩
    · intro hproved
      exact ⟨text, x, hfirst, hstate, hproved⟩
    · rintro ⟨text', x', -, hstate', hproved⟩
      obtain rfl := Option.some.inj (hstate.symm.trans hstate')
      exact hproved

end

/-- The answers are right exactly when the second message is whole wherever there has been a
challenge. -/
theorem answers_are_right_iff (c : Crypto) (p : Profile) (u : Uuids) (d : Dialogue) :
    Right c p u d ↔ ∀ x, (afterFirst c p u d).state = some x → Whole c p x d.final := by
  obtain ⟨condition, text, hfirst, hstate⟩ | ⟨text, x, hfirst, hstate, hrecorded⟩ :=
    firstReply_spec c p u d
  · constructor
    · intro _ x hx
      cases hstate.symm.trans hx
    · exact fun _ => right_of_state_none hfirst hstate
  · rw [right_iff_of_state_some hfirst hstate hrecorded]
    constructor
    · intro h x' hx'
      obtain rfl := Option.some.inj (hstate.symm.trans hx')
      exact h
    · exact fun h => h x hstate

/-! ## A message without a proof in base64 -/

def zeros : Crypto :=
  { H := fun _ => ⟨List.replicate 20 0, rfl⟩
    HMAC := fun _ _ => ⟨List.replicate 20 0, rfl⟩
    Hi := fun _ _ _ => []
    saslprep := some }

def juliet : Profile :=
  { nodeprep := some some
    backend := .plain fun username =>
      if username = bytes "juliet" then .active (bytes "secret") else .unknown }

def uuids : Uuids := ⟨bytes "5a17", bytes "0b0e"⟩

/-- The proof of the second message is no base64. -/
def withoutProof : Dialogue :=
  { first := bytes "n,,n=juliet,r=c1"
    final := bytes "c=biws,r=c10b0e,p=?"
    calls := [] }

theorem finalReply_withoutProof : finalReply zeros juliet uuids withoutProof = .raises := by
  decide +kernel

/-- Whoever sends a proof that is no base64 makes the handler raise. -/
theorem proof_that_raises : ¬Right zeros juliet uuids withoutProof := by
  intro h
  exact h.answered.2 finalReply_withoutProof

/-- What stands behind twenty bytes of a proof is not looked at. -/
example : finalReply zeros juliet uuids
    { withoutProof with final := bytes "c=biws,r=c10b0e,p=AAAAAAAAAAAAAAAAAAAAAAAAAAAAAAAA" } =
      .success (bytes "v=AAAAAAAAAAAAAAAAAAAAAAAAAAA=") := by
  decide +kernel

end Prosody.Scram
