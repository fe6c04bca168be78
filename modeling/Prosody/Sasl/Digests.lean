import Prosody.Library.Logs
import Prosody.Sasl.DigestMd5

/-! # Exchanges of DIGEST-MD5 (`util/sasl/digest-md5.lua`) -/

namespace Prosody.DigestMd5

open Pattern (Item Found)
open Scram (Bytes bytes char comma Account)

/-! ## What RFC 2831 prescribes -/

/-- A text in UTF-8 as ISO 8859-1, if it has no other characters. -/
def latin1? : Bytes → Option Bytes
  | [] => some []
  | [c] => if c < 128 then some [c] else none
  | c :: d :: s =>
    if c < 128 then (latin1? (d :: s)).map (c :: ·)
    else if (c = 194 ∨ c = 195) ∧ 128 ≤ d ∧ d < 192 then
      (latin1? s).map (((c - 192) * 64 + d) :: ·)
    else none

/-- The text that is hashed: in ISO 8859-1 where that is possible. -/
def latin1 (s : Bytes) : Bytes := (latin1? s).getD s

/-- The values of the directives, and the password. -/
structure Response where
  username : Bytes
  realm : Bytes
  password : Bytes
  nonce : Bytes
  cnonce : Bytes
  nc : Bytes
  qop : Bytes
  digestUri : Bytes
  charset : Option Bytes
  authzid : Option Bytes

/-- The value of `response` that goes with the others. -/
def prescribed (c : Crypto) (r : Response) : Bytes :=
  let username := if r.charset = some (bytes "utf-8") then latin1 r.username else r.username
  let secret := c.md5 (username ++ bytes ":" ++ r.realm ++ bytes ":" ++ latin1 r.password)
  let a1 := secret ++ bytes ":" ++ r.nonce ++ bytes ":" ++ r.cnonce ++
    (r.authzid.map (bytes ":" ++ ·)).getD []
  let a2 := bytes "AUTHENTICATE:" ++ r.digestUri ++
    if r.qop = bytes "auth" then [] else bytes ":00000000000000000000000000000000"
  c.hex (c.md5 (c.hex (c.md5 a1) ++ bytes ":" ++ r.nonce ++ bytes ":" ++ r.nc ++ bytes ":" ++
    r.cnonce ++ bytes ":" ++ r.qop ++ bytes ":" ++ c.hex (c.md5 a2)))

/-- A type of service, a slash and a host. -/
def UriForm (uri : Bytes) : Prop :=
  ∃ type host, uri = type ++ slash :: host ∧ type ≠ [] ∧ ∀ c ∈ type, alphanumeric c = true

/-- The message carries what it takes to be let in as this user. -/
def Convinces (c : Crypto) (p : Profile) (nonce username message : Bytes) : Prop :=
  ∃ password cnonce nc uri,
    (parse message).get (bytes "username") = some username ∧
    p.plain username p.realm = .active password ∧
    (parse message).get (bytes "nonce") = some nonce ∧
    (parse message).get (bytes "cnonce") = some cnonce ∧
    (parse message).get (bytes "nc") = some nc ∧
    ((parse message).get (bytes "realm") = none ∨ (parse message).get (bytes "realm") = some [] ∨
      (parse message).get (bytes "realm") = some p.realm) ∧
    ((parse message).get (bytes "charset") = none ∨
      (parse message).get (bytes "charset") = some (bytes "utf-8")) ∧
    (parse message).get (bytes "digest-uri") = some uri ∧ UriForm uri ∧
    (parse message).get (bytes "response") = some (prescribed c
      { username, password, nonce, cnonce, nc
        realm := ((parse message).get (bytes "realm")).getD []
        qop := ((parse message).get (bytes "qop")).getD (bytes "auth")
        digestUri := uri
        charset := (parse message).get (bytes "charset")
        authzid := (parse message).get (bytes "authzid") })

/-! ## Exchanges -/

/-- A message, the reply to it and the username that is reported from then on. -/
structure Entry where
  message : Bytes
  reply : Reply
  username : Option Bytes

structure Session where
  handler : Handler := {}
  log : List Entry := []

def receive (c : Crypto) (p : Profile) (uuid : Bytes) (s : Session) (message : Bytes) : Session :=
  let replied := digest c p uuid s.handler message
  { handler := replied.2, log := s.log ++ [⟨message, replied.1, replied.2.username⟩] }

/-- Nothing raises, and success comes after a message that convinces, for the user that is
reported. -/
def Legitimate (c : Crypto) (p : Profile) (uuid : Bytes) (past : List Entry) (x : Entry) : Prop :=
  x.reply ≠ .raises ∧ (x.reply = .success → ∃ y ∈ past, ∃ username,
    x.username = some username ∧ Convinces c p uuid username y.message)

def Right (c : Crypto) (p : Profile) (uuid : Bytes) (s : Session) : Prop :=
  Throughout (Legitimate c p uuid) s.log

/-- If the message gets past the checks, it has a nonce count, a username that is prepared as it
stands, a digest-uri that is the service and the host and nothing more, no other protection than
that of the authentication, and neither username nor password change when they are hashed. -/
def Sound (p : Profile) (nonce message : Bytes) : Prop :=
  ∀ username g, prepared p (parse message) = some username →
    gather p nonce (parse message) username = .ok g →
      (∃ nc, (parse message).get (bytes "nc") = some nc) ∧ g.username = username ∧
      UriForm g.digestUri ∧ g.qop = bytes "auth" ∧ latin1 g.password = g.password ∧
      (g.charset = some (bytes "utf-8") → latin1 g.username = g.username)

/-! ## Digest-uris -/

theorem group_captures {q r : UInt8 → Bool} {s : Bytes} {f : Found UInt8}
    (h : f ∈ (Item.group [.one q, .many r]).found s) : f.captures = [f.text] := by
  obtain ⟨g, hg, rfl⟩ := Pattern.mem_group.mp h
  obtain ⟨a, ha, b, hb, rfl⟩ := Pattern.mem_found_cons.mp hg
  have hone := (Pattern.one_captures ha).1
  have hmany := (Pattern.many_captures (Pattern.mem_found_singleton.mp hb)).1
  change (a.captures ++ b.captures).cons _ = _
  rw [hone, hmany]
  rfl

theorem uriPattern_spec {s : Bytes} {f : Found UInt8} (h : f ∈ Pattern.found uriPattern s) :
    ∃ protocol domain, f.captures = [protocol, domain] ∧
      s = protocol ++ bytes "/" ++ domain := by
  have htext := Pattern.text_append_rest h
  obtain ⟨a, ha, f1, h1, rfl⟩ := Pattern.mem_found_cons.mp h
  obtain ⟨b, hb, f2, h2, rfl⟩ := Pattern.mem_found_cons.mp h1
  obtain ⟨d, hd, f3, h3, rfl⟩ := Pattern.mem_found_cons.mp h2
  have ha' := group_captures ha
  obtain ⟨hb', x, hx, hxtext⟩ := Pattern.one_captures hb
  have hd' := (Pattern.group_many_captures hd).1
  obtain rfl := Pattern.stop_spec (Pattern.mem_found_singleton.mp h3)
  obtain rfl : x = slash := by simpa using hx
  refine ⟨a.text, d.text, ?_, ?_⟩
  · simp only [Found.append, ha', hb', hd', List.append_nil, List.nil_append, List.cons_append]
  · rw [htext]
    simp only [Found.append, hxtext, List.append_nil, List.append_assoc]
    rfl

theorem found_group {q r : UInt8 → Bool} {c : UInt8} {s : Bytes} (hc : q c) (hs : ∀ d ∈ s, r d)
    (rest : Bytes) :
    ∃ f ∈ (Item.group [.one q, .many r]).found (c :: (s ++ rest)), f.rest = rest := by
  have hone : ({ text := [c], rest := s ++ rest } : Found UInt8) ∈
      (Item.one q).found (c :: (s ++ rest)) := by
    rw [Item.found, Pattern.one, if_pos hc]
    exact List.mem_singleton_self _
  have hmany : ({ text := s, rest := rest } : Found UInt8) ∈
      Pattern.found [.many r] (s ++ rest) := by
    rw [Pattern.mem_found_singleton, Item.found]
    exact Pattern.mem_many hs rest
  have hboth := Pattern.mem_found_cons.mpr ⟨_, hone, _, hmany, rfl⟩
  exact ⟨_, Pattern.mem_group.mpr ⟨_, hboth, rfl⟩, rfl⟩

theorem anchored_of_uriForm {uri : Bytes} (h : UriForm uri) :
    (Pattern.anchored uriPattern uri).isSome := by
  obtain ⟨type, host, rfl, hne, hall⟩ := h
  cases type with
  | nil => exact absurd rfl hne
  | cons c type =>
    obtain ⟨f, hf, hrest⟩ := found_group (hall c List.mem_cons_self)
      (fun d hd => hall d (List.mem_cons_of_mem _ hd)) (slash :: host)
    have hslash : ({ text := [slash], rest := host } : Found UInt8) ∈
        (Item.one (· == slash)).found f.rest := by
      rw [hrest]
      exact List.mem_singleton_self _
    have hhost : ({ text := host, rest := [] } : Found UInt8) ∈
        Pattern.found [.many fun _ => true] host := by
      rw [Pattern.mem_found_singleton, Item.found]
      have hmem := Pattern.mem_many (p := fun _ : UInt8 => true)
        (fun _ _ => rfl : ∀ c ∈ host, _) []
      rwa [List.append_nil] at hmem
    have hgroup : (Found.capture { text := host, rest := [] } : Found UInt8) ∈
        (Item.group [.many fun _ => true]).found host := Pattern.mem_group.mpr ⟨_, hhost, rfl⟩
    have hstop : ({ text := [], rest := [] } : Found UInt8) ∈ Pattern.found [.stop] [] :=
      Pattern.mem_found_singleton.mpr (List.mem_singleton_self _)
    have hall := Pattern.mem_found_cons.mpr ⟨_, hf, _, Pattern.mem_found_cons.mpr
      ⟨_, hslash, _, Pattern.mem_found_cons.mpr ⟨_, hgroup, _, hstop, rfl⟩, rfl⟩, rfl⟩
    exact List.isSome_head?.mpr (List.ne_nil_of_mem hall)

theorem splitUri_of_uriForm {uri protocol domain : Bytes} (h : UriForm uri)
    (hsplit : splitUri uri = some (protocol, domain)) : protocol ++ bytes "/" ++ domain = uri := by
  obtain ⟨f, hf⟩ := Option.isSome_iff_exists.mp (anchored_of_uriForm h)
  obtain ⟨protocol', domain', hcaptures, huri⟩ := uriPattern_spec (Pattern.anchored_mem hf)
  unfold splitUri at hsplit
  rw [Pattern.search_nil.mpr hf, Option.bind_some] at hsplit
  dsimp only at hsplit
  rw [hcaptures] at hsplit
  cases hsplit
  exact huri.symm

/-! ## The checks -/

/-- What stands in a message that passes the checks. -/
structure Passed (p : Profile) (nonce : Bytes) (response : Directives) (g : Gathered) :
    Prop where
  username : g.username = (response.get (bytes "username")).getD []
  carried : response.get (bytes "nonce") = some nonce
  given : g.nonce = nonce
  cnonce : response.get (bytes "cnonce") = some g.cnonce
  qop : g.qop = (response.get (bytes "qop")).getD (bytes "auth")
  realm : g.realm = (response.get (bytes "realm")).getD []
  acceptable : g.realm = [] ∨ g.realm = p.realm
  charset : g.charset = response.get (bytes "charset")
  known : g.charset = none ∨ g.charset = some (bytes "utf-8")
  digestUri : response.get (bytes "digest-uri") = some g.digestUri
  parts : splitUri g.digestUri = some (g.protocol, g.domain)
  account : p.plain g.username p.realm = .active g.password
  authzid : g.authzid = response.get (bytes "authzid")

def Reply.isFailure : Reply → Bool
  | .failure _ _ => true
  | _ => false

variable {response : Directives} {p : Profile}

variable {username nonce : Bytes}

theorem checked_error {reply : Reply} (h : checked p nonce response username = .error reply) :
    reply.isFailure = true := by
  unfold checked at h
  dsimp only at h
  repeat' split at h
  all_goals first | (cases h; rfl) | cases h

theorem gather_error {prepared : Bytes}
    {reply : Reply} (h : gather p nonce response prepared = .error reply) :
    reply.isFailure = true := by
  unfold gather at h
  dsimp only at h
  split at h
  · rename_i hchecked
    cases h
    exact checked_error hchecked
  · repeat' split at h
    all_goals first | (cases h; rfl) | cases h

theorem gather_ok {prepared : Bytes} {g : Gathered}
    (h : gather p nonce response prepared = .ok g) : Passed p nonce response g := by
  unfold gather at h
  dsimp only at h
  split at h
  · cases h
  rename_i found hchecked
  have hg : ∃ password, p.plain ((response.get (bytes "username")).getD []) p.realm =
      .active password ∧ g = found password (response.get (bytes "authzid")) := by
    split at h
    · cases h
    · cases h
    rename_i password hplain
    refine ⟨password, hplain, ?_⟩
    split at h
    · rename_i hnone
      cases h
      rw [hnone]
    · rename_i authzid hsome
      split at h
      · cases h
        rw [hsome]
      · cases h
  obtain ⟨password, hplain, rfl⟩ := hg
  unfold checked at hchecked
  dsimp only at hchecked
  split at hchecked
  · cases hchecked
  rename_i given hgiven
  split at hchecked
  · cases hchecked
  rename_i hnonce
  split at hchecked
  · cases hchecked
  rename_i cnonce hcnonce
  split at hchecked
  · cases hchecked
  rename_i hrealm
  split at hchecked
  · cases hchecked
  rename_i hcharset
  split at hchecked
  · cases hchecked
  rename_i uri huri
  split at hchecked
  · cases hchecked
  rename_i protocol domain hsplit
  cases hchecked
  exact
    { username := rfl
      carried := by rw [hgiven, not_not.mp hnonce]
      given := rfl
      cnonce := hcnonce
      qop := rfl
      realm := rfl
      acceptable := by
        by_contra hneither
        exact hrealm (not_or.mp hneither)
      charset := rfl
      known := by
        by_contra hneither
        exact hcharset (not_or.mp hneither)
      digestUri := huri
      parts := hsplit
      account := hplain
      authzid := rfl }

theorem prepared_some (h : prepared p response = some username) :
    ∃ given, response.get (bytes "username") = some given := by
  unfold prepared at h
  cases hget : response.get (bytes "username") with
  | none =>
    rw [hget] at h
    cases h
  | some given => exact ⟨given, rfl⟩

/-- For a sound message the value that is compared is the one that is prescribed. -/
theorem responseValue_eq_prescribed (c : Crypto) {p : Profile} {nonce nc : Bytes}
    {response : Directives} {g : Gathered} (hpassed : Passed p nonce response g)
    (huri : UriForm g.digestUri) (hqop : g.qop = bytes "auth")
    (hpassword : latin1 g.password = g.password)
    (husername : g.charset = some (bytes "utf-8") → latin1 g.username = g.username) :
    responseValue c g nc (bytes "AUTHENTICATE:") = prescribed c
      { username := g.username, realm := g.realm, password := g.password, nonce := nonce
        cnonce := g.cnonce, nc := nc, qop := g.qop, digestUri := g.digestUri
        charset := g.charset, authzid := g.authzid } := by
  have hname : (if g.charset = some (bytes "utf-8") then latin1 g.username else g.username) =
      g.username := by
    split
    · rename_i h
      exact husername h
    · rfl
  have ha1 : a1 c g = c.md5 (g.username ++ bytes ":" ++ g.realm ++ bytes ":" ++ g.password) ++
      bytes ":" ++ nonce ++ bytes ":" ++ g.cnonce ++
        (g.authzid.map (bytes ":" ++ ·)).getD [] := by
    unfold a1
    rw [hpassed.given]
    cases g.authzid with
    | none => exact (List.append_nil _).symm
    | some authzid => exact List.append_assoc _ _ _
  have ha2 : bytes "AUTHENTICATE:" ++ g.protocol ++ bytes "/" ++ g.domain =
      bytes "AUTHENTICATE:" ++ g.digestUri := by
    rw [← splitUri_of_uriForm huri hpassed.parts]
    simp only [List.append_assoc]
  unfold responseValue prescribed
  dsimp only
  rw [hname, hpassword, ha1, ha2, if_pos hqop, List.append_nil, hpassed.given]

theorem convinces_of_passed (c : Crypto) {uuid message nc : Bytes}
    {g : Gathered} (hname : g.username = username)
    (hprepared : prepared p (parse message) = some username)
    (hpassed : Passed p uuid (parse message) g)
    (hnc : (parse message).get (bytes "nc") = some nc) (huri : UriForm g.digestUri)
    (hresponse : some (prescribed c
      { username := g.username, realm := g.realm, password := g.password, nonce := uuid
        cnonce := g.cnonce, nc := nc, qop := g.qop, digestUri := g.digestUri
        charset := g.charset, authzid := g.authzid }) = (parse message).get (bytes "response")) :
    Convinces c p uuid username message := by
  obtain ⟨given, hgiven⟩ := prepared_some hprepared
  have hsent : (parse message).get (bytes "username") = some username := by
    have h := hpassed.username
    rw [hgiven, Option.getD_some, hname] at h
    rw [hgiven, h]
  have hrealm : (parse message).get (bytes "realm") = none ∨
      (parse message).get (bytes "realm") = some [] ∨
      (parse message).get (bytes "realm") = some p.realm := by
    have h := hpassed.realm
    have hacceptable := hpassed.acceptable
    cases hr : (parse message).get (bytes "realm") with
    | none => exact .inl rfl
    | some realm =>
      rw [hr, Option.getD_some] at h
      rw [h] at hacceptable
      rcases hacceptable with rfl | rfl
      · exact .inr (.inl rfl)
      · exact .inr (.inr rfl)
  have haccount := hpassed.account
  have hknown := hpassed.known
  rw [hpassed.charset] at hknown
  rw [hname] at haccount
  refine ⟨g.password, g.cnonce, nc, g.digestUri, hsent, haccount, hpassed.carried, hpassed.cnonce,
    hnc, hrealm, hknown, hpassed.digestUri, huri, ?_⟩
  rw [← hresponse, hname, hpassed.realm, hpassed.qop, hpassed.charset, hpassed.authzid]

/-- The second message: it is refused, or it convinces. -/
theorem second_sound (c : Crypto) {p : Profile} {uuid message : Bytes} {h : Handler}
    (hnonce : h.nonce = some uuid) (hcount : h.nonceCount = [])
    (hauth : h.authenticated = false) (hsound : Sound p uuid message) :
    (second c p h message).1 ≠ .raises ∧ (second c p h message).1 ≠ .success ∧
      (second c p h message).2.step = h.step ∧ (second c p h message).2.nonce = h.nonce ∧
      ((second c p h message).2.authenticated = true → ∃ username,
        (second c p h message).2.username = some username ∧
          Convinces c p uuid username message) := by
  have hreplay : ((parse message).get (bytes "nc")).any (h.nonceCount.contains ·) = false := by
    rw [hcount]
    cases (parse message).get (bytes "nc") <;> rfl
  have hfailure : ∀ {reply : Reply}, reply.isFailure = true →
      reply ≠ .raises ∧ reply ≠ .success := by
    intro reply hreply
    constructor <;>
    · rintro rfl
      cases hreply
  have hidle : h.authenticated = true → ∃ username, h.username = some username ∧
      Convinces c p uuid username message := by
    intro hyes
    rw [hauth] at hyes
    cases hyes
  unfold second
  dsimp only
  rw [hreplay, if_neg Bool.false_ne_true]
  cases hprepared : prepared p (parse message) with
  | none => exact ⟨by simp, by simp, rfl, rfl, hidle⟩
  | some username =>
    dsimp only
    rw [hnonce]
    cases hgather : gather p uuid (parse message) username with
    | error reply =>
      have hreply := hfailure (gather_error hgather)
      simp only [Option.getD_some, hgather]
      refine ⟨hreply.1, hreply.2, trivial, trivial, fun hyes => ?_⟩
      have hno := hauth.symm.trans hyes
      cases hno
    | ok g =>
      obtain ⟨⟨nc, hnc⟩, hname, huri, hqop, hpassword, husername⟩ :=
        hsound username g hprepared hgather
      have hpassed := gather_ok hgather
      have hvalue := @responseValue_eq_prescribed c _ _ nc _ _ hpassed huri hqop hpassword
        husername
      simp only [Option.getD_some, hgather, compare, hnc, hauth, Bool.false_or]
      by_cases hmatch : some (responseValue c g nc (bytes "AUTHENTICATE:")) =
          (parse message).get (bytes "response")
      · simp only [if_pos hmatch]
        refine ⟨by simp, by simp, trivial, trivial, fun _ => ⟨username, rfl, ?_⟩⟩
        exact convinces_of_passed c hname hprepared hpassed hnc huri (hvalue ▸ hmatch)
      · simp only [if_neg hmatch]
        refine ⟨by simp, by simp, trivial, trivial, fun hyes => ?_⟩
        cases hyes

/-! ## A whole exchange -/

section

variable (c : Crypto) (p : Profile) (uuid : Bytes)

/-- What holds between two messages. -/
structure Inv (s : Session) : Prop where
  right : Right c p uuid s
  fresh : s.handler.step = 0 → s.handler.nonce = none
  started : s.handler.step ≠ 0 → s.handler.nonce = some uuid
  waiting : s.handler.step ≤ 1 → s.handler.authenticated = false ∧ s.handler.nonceCount = []
  convinced : s.handler.authenticated = true → ∃ y ∈ s.log, ∃ username,
    s.handler.username = some username ∧ Convinces c p uuid username y.message

/-- The second message is sound. -/
def Ok (s : Session) (message : Bytes) : Prop := s.handler.step = 1 → Sound p uuid message

variable {c p uuid}

/-- A reply that is no success and leaves the handler to go on as before. -/
theorem Right.quiet {s : Session} {message : Bytes} {reply : Reply} {h : Handler}
    (hright : Right c p uuid s) (hraises : reply ≠ .raises) (hsuccess : reply ≠ .success) :
    Right c p uuid ⟨h, s.log ++ [⟨message, reply, h.username⟩]⟩ :=
  throughout_concat.mpr ⟨hright, hraises, fun hyes => absurd hyes hsuccess⟩

theorem Inv.receive {s : Session} {message : Bytes} (hinv : Inv c p uuid s)
    (hok : Ok p uuid s message) : Inv c p uuid (receive c p uuid s message) := by
  by_cases h0 : s.handler.step = 0
  · -- the challenge
    have hwaiting := hinv.waiting (by omega)
    have hdigest : digest c p uuid s.handler message = (.challenge (serialize
        { nonce := some uuid, qop := some (bytes "auth"), charset := some (bytes "utf-8"),
          algorithm := some (bytes "md5-sess"), realm := some p.realm }),
        { s.handler with nonce := some uuid, step := 1, nonceCount := [] }) := by
      unfold digest
      rw [if_pos (hinv.fresh h0)]
      rfl
    unfold DigestMd5.receive
    rw [hdigest]
    refine ⟨hinv.right.quiet (by simp) (by simp), ?_, ?_, ?_, ?_⟩
    · intro h
      cases h
    · intro _
      rfl
    · intro _
      exact ⟨hwaiting.1, rfl⟩
    · intro h
      have hno := hwaiting.1.symm.trans h
      cases hno
  have hnonce := hinv.started h0
  have hsome : s.handler.nonce ≠ none := by
    rw [hnonce]
    exact Option.some_ne_none _
  by_cases h1 : s.handler.step = 1
  · -- the response of the client
    obtain ⟨hauth, hcount⟩ := hinv.waiting (by omega)
    have hdigest : digest c p uuid s.handler message =
        second c p { s.handler with step := 2 } message := by
      simp only [digest, if_neg hsome, h1]
      rfl
    obtain ⟨hraises, hsuccess, hstep, hkept, hconvinced⟩ :=
      @second_sound c p uuid message { s.handler with step := 2 } hnonce hcount hauth (hok h1)
    unfold DigestMd5.receive
    rw [hdigest]
    refine ⟨hinv.right.quiet hraises hsuccess, ?_, ?_, ?_, ?_⟩
    · intro h
      have hno := hstep.symm.trans h
      cases hno
    · intro _
      exact hkept.trans hnonce
    · intro h
      have hno : 2 ≤ 1 := le_of_eq_of_le hstep.symm h
      omega
    · intro h
      obtain ⟨username, hname, hmessage⟩ := hconvinced h
      exact ⟨_, List.mem_append_right _ (List.mem_singleton_self _), username, hname, hmessage⟩
  · -- the empty message after the answer of the server, and everything later
    have hdigest : (digest c p uuid s.handler message).2 =
          { s.handler with step := s.handler.step + 1 } ∧
        (digest c p uuid s.handler message).1 ≠ .raises ∧
        ((digest c p uuid s.handler message).1 = .success → s.handler.authenticated = true) := by
      have hne1 : s.handler.step + 1 ≠ 1 := by omega
      have hne2 : s.handler.step + 1 ≠ 2 := by omega
      unfold digest
      rw [if_neg hsome]
      dsimp only
      rw [if_neg hne1, if_neg hne2]
      split_ifs with h3 hauth
      · exact ⟨rfl, by simp, fun _ => hauth⟩
      · exact ⟨rfl, by simp, fun h => by cases h⟩
      · exact ⟨rfl, by simp, fun h => by cases h⟩
    obtain ⟨hhandler, hraises, hsuccess⟩ := hdigest
    have hright : Right c p uuid (DigestMd5.receive c p uuid s message) := by
      refine throughout_concat.mpr ⟨hinv.right, hraises, fun hyes => ?_⟩
      obtain ⟨y, hy, username, hname, hmessage⟩ := hinv.convinced (hsuccess hyes)
      refine ⟨y, hy, username, ?_, hmessage⟩
      change (digest c p uuid s.handler message).2.username = _
      rw [hhandler]
      exact hname
    have hkept : (DigestMd5.receive c p uuid s message).handler =
        { s.handler with step := s.handler.step + 1 } := hhandler
    refine ⟨hright, ?_, ?_, ?_, ?_⟩
    · intro h
      rw [hkept] at h
      cases h
    · intro _
      rw [hkept]
      exact hnonce
    · intro h
      rw [hkept] at h
      exact absurd h (by change ¬ s.handler.step + 1 ≤ 1; omega)
    · intro h
      rw [hkept] at h ⊢
      obtain ⟨y, hy, username, hname, hmessage⟩ := hinv.convinced h
      exact ⟨y, List.mem_append_left _ hy, username, hname, hmessage⟩

theorem inv_start : Inv c p uuid {} :=
  ⟨throughout_nil, fun _ => rfl, fun h => absurd rfl h, fun _ => ⟨rfl, rfl⟩, fun h => by cases h⟩

variable (c p uuid)

/-- An exchange whose second message is sound. -/
theorem exchange_right {messages : List Bytes}
    (h : Machine.Guarded (receive c p uuid) (Ok p uuid) {} messages) :
    Machine.Always (receive c p uuid) (Right c p uuid) {} messages :=
  (Machine.always_of_guarded (fun _ _ hinv hok => hinv.receive hok) inv_start h).mono
    fun _ hinv => hinv.right

end

/-! ### Two exchanges -/

/-- A hash that changes nothing, for a short password under any name. -/
def plainCrypto : Crypto := ⟨id, id⟩

def trusting : Profile :=
  { realm := bytes "r", nodeprep := some some, plain := fun _ _ => .active (bytes "p") }

def wholeResponse : Bytes :=
  bytes "username=u,nonce=n,cnonce=c,nc=1,digest-uri=x/r,response=u::p:n:c:n:1:c:auth:" ++
    bytes "AUTHENTICATE:x/r"

def countless : Bytes := bytes "username=u,nonce=n,cnonce=c,digest-uri=x/r"

theorem wholeResponse_sound : Sound trusting (bytes "n") wholeResponse := by
  intro username g hprepared hgather
  have hpassed := gather_ok hgather
  have hvalues : (parse wholeResponse).get (bytes "username") = some (bytes "u") ∧
      (parse wholeResponse).get (bytes "digest-uri") = some (bytes "x/r") ∧
      (parse wholeResponse).get (bytes "nc") = some (bytes "1") ∧
      (parse wholeResponse).get (bytes "qop") = none ∧
      (parse wholeResponse).get (bytes "charset") = none ∧
      prepared trusting (parse wholeResponse) = some (bytes "u") := by
    decide +kernel
  obtain ⟨hname, huri, hnc, hqop, hcharset, hu⟩ := hvalues
  obtain rfl := Option.some.inj (hu.symm.trans hprepared)
  have hg := hpassed.username
  rw [hname] at hg
  have hdigest := Option.some.inj (huri.symm.trans hpassed.digestUri)
  have hpassword : Account.active (bytes "p") = .active g.password := hpassed.account
  injection hpassword with hpassword
  refine ⟨⟨_, hnc⟩, hg, ?_, ?_, ?_, ?_⟩
  · rw [← hdigest]
    exact ⟨bytes "x", bytes "r", rfl, by decide +kernel, by decide +kernel⟩
  · rw [hpassed.qop, hqop]
    rfl
  · rw [← hpassword]
    decide +kernel
  · intro h
    rw [hpassed.charset, hcharset] at h
    cases h

theorem wholeResponse_right :
    Machine.Always (receive plainCrypto trusting (bytes "n"))
        (Right plainCrypto trusting (bytes "n")) {} [[], wholeResponse, []] ∧
      ((Machine.run (receive plainCrypto trusting (bytes "n")) {}
        [[], wholeResponse, []]).log.map Entry.reply).getLast? = some .success := by
  have hguarded : Machine.Guarded (receive plainCrypto trusting (bytes "n"))
      (Ok trusting (bytes "n")) {} [[], wholeResponse, []] := by
    simp only [Machine.Guarded]
    refine ⟨?_, fun _ => wholeResponse_sound, ?_, trivial⟩
    · intro h
      cases h
    · intro h
      have hstep : (receive plainCrypto trusting (bytes "n") (receive plainCrypto trusting
          (bytes "n") {} []) wholeResponse).handler.step = 2 := by decide +kernel
      rw [hstep] at h
      cases h
  exact ⟨exchange_right plainCrypto trusting (bytes "n") hguarded, by decide +kernel⟩

/-- Without a nonce count the values cannot be put together. -/
theorem countless_raises :
    ¬ ∀ c p uuid messages, Machine.Always (receive c p uuid) (Right c p uuid) {} messages := by
  intro hall
  have h := Machine.always_iff.mp
    (hall plainCrypto trusting (bytes "n") [[], countless]) _ List.prefix_rfl
  have hraises : (digest plainCrypto trusting (bytes "n")
    (receive plainCrypto trusting (bytes "n") {} []).handler countless).1 = .raises := by
    decide +kernel
  generalize hs : receive plainCrypto trusting (bytes "n") {} [] = s at hraises
  have hrun : Machine.run (receive plainCrypto trusting (bytes "n")) {} [[], countless] =
      receive plainCrypto trusting (bytes "n") s countless := by
    rw [Machine.run_cons, hs]
    rfl
  rw [hrun] at h
  exact (throughout_concat.mp h).2.1 hraises

end Prosody.DigestMd5
