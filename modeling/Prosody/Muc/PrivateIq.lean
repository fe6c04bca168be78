import Prosody.Muc.Occupancy
import Prosody.Util.Base64

/-! # Private requests between occupants

A request to a nick goes on to the primary session of the occupant, under an identifier from
which the room finds out where the response has to go. -/

namespace Prosody.Muc

/-! ## Strings and their bytes -/

def bytes (s : String) : List UInt8 := s.toByteArray.data.toList

def ofBytes (b : List UInt8) : Option String := String.fromUTF8? ⟨b.toArray⟩

theorem ofBytes_bytes (s : String) : ofBytes (bytes s) = some s := by
  unfold ofBytes bytes String.fromUTF8?
  rw [Array.toArray_toList, dif_pos s.isValidUTF8]
  rfl

theorem bytes_of_ofBytes {b : List UInt8} {s : String} (h : ofBytes b = some s) : bytes s = b := by
  unfold ofBytes String.fromUTF8? at h
  split at h
  · cases h
    rfl
  · cases h

theorem bytes_ne_nil {jid : String} (h : (Jid.split jid).isSome) : bytes jid ≠ [] := by
  intro hnil
  have hempty := ofBytes_bytes jid
  rw [hnil] at hempty
  have hstr : jid = "" := Option.some.inj (hempty.symm.trans (ofBytes_bytes ""))
  rw [hstr] at h
  exact absurd h (by decide)

/-! ## Identifiers -/

/-- The fields that the identifier of a request is made of. -/
def pack (realJid id hash : List UInt8) : List UInt8 := realJid ++ 0 :: id ++ 0 :: hash

/-- The match with `^(%Z+)%z(%Z*)%z(.+)$`. -/
def unpack (s : List UInt8) : Option (List UInt8 × List UInt8 × List UInt8) :=
  match s.dropWhile (· ≠ 0) with
  | [] => none
  | _ :: rest =>
    match rest.dropWhile (· ≠ 0) with
    | [] => none
    | _ :: hash =>
      if s.takeWhile (· ≠ 0) = [] ∨ hash = [] then none
      else some (s.takeWhile (· ≠ 0), rest.takeWhile (· ≠ 0), hash)

theorem split_at_zero {a : List UInt8} (h : 0 ∉ a) (b : List UInt8) :
    (a ++ 0 :: b).takeWhile (· ≠ 0) = a ∧ (a ++ 0 :: b).dropWhile (· ≠ 0) = 0 :: b := by
  have hall : ∀ c ∈ a, decide (c ≠ 0) = true := by
    intro c hc
    rw [decide_eq_true_iff]
    rintro rfl
    exact h hc
  rw [List.takeWhile_append_of_pos hall, List.dropWhile_append_of_pos hall]
  simp

theorem unpack_pack {realJid id hash : List UInt8} (hj : 0 ∉ realJid) (hne : realJid ≠ [])
    (hi : 0 ∉ id) (hh : hash ≠ []) : unpack (pack realJid id hash) = some (realJid, id, hash) := by
  have hpack : pack realJid id hash = realJid ++ 0 :: (id ++ 0 :: hash) := by
    simp [pack, List.append_assoc]
  obtain ⟨htake, hdrop⟩ := split_at_zero hj (id ++ 0 :: hash)
  obtain ⟨htake', hdrop'⟩ := split_at_zero hi hash
  rw [hpack]
  unfold unpack
  rw [hdrop]
  dsimp only
  rw [hdrop']
  dsimp only
  rw [htake, htake', if_neg (by simp [hne, hh])]

theorem pack_of_unpack {s realJid id hash : List UInt8}
    (h : unpack s = some (realJid, id, hash)) : s = pack realJid id hash := by
  have hzero : ∀ {l rest : List UInt8} {c : UInt8}, l.dropWhile (· ≠ 0) = c :: rest →
      l = l.takeWhile (· ≠ 0) ++ 0 :: rest := by
    intro l rest c hdrop
    have hne : l.dropWhile (· ≠ 0) ≠ [] := by rw [hdrop]; exact List.cons_ne_nil c rest
    have hhead := List.head_dropWhile_not (fun c : UInt8 => decide (c ≠ 0)) hne
    simp only [hdrop, List.head_cons] at hhead
    have hc : c = 0 := by simpa using hhead
    have hl : l = l.takeWhile (· ≠ 0) ++ l.dropWhile (· ≠ 0) :=
      List.takeWhile_append_dropWhile.symm
    rw [hdrop, hc] at hl
    exact hl
  unfold unpack at h
  split at h
  · cases h
  · rename_i c rest hdrop
    split at h
    · cases h
    · rename_i c' hash' hdrop'
      split at h
      · cases h
      · cases h
        have hs := hzero hdrop
        have hrest := hzero hdrop'
        rw [pack, List.append_assoc, List.cons_append, ← hrest]
        exact hs

/-! ## Requests and responses -/

/-- A stanza of type `iq`, by what the room looks at: besides the attributes the namespace of
the first child, and whether it is a ping. -/
structure Iq where
  type : String
  id : List UInt8
  sender : String
  recipient : String
  xmlns : Option String
  ping : Bool
  deriving DecidableEq

/-- What becomes of a request or response. -/
inductive IqOutcome where
  | unhandled
  | refused (e : Error)
  | pong
  | raised
  | routed (iq : Iq)
  deriving DecidableEq

def Iq.IsResponse (iq : Iq) : Prop := iq.type = "error" ∨ iq.type = "result"

instance (iq : Iq) : Decidable iq.IsResponse := inferInstanceAs (Decidable (_ ∨ _))

/-- The server of a user answers requests in these namespaces itself. -/
def Iq.personal (iq : Iq) : Bool :=
  iq.xmlns = some "vcard-temp" ∨ iq.xmlns = some "http://jabber.org/protocol/pubsub" ∨
    iq.xmlns = some "urn:ietf:params:xml:ns:vcard-4.0"

namespace Room

variable (md5 : List UInt8 → List UInt8) (ord : KeyOrder String)

/-- The identifier of a request that `sender` sends to the session `realJid`. -/
def rewriteId (realJid : String) (id : List UInt8) (sender : String) : List UInt8 :=
  Base64.encode (pack (bytes realJid) id (md5 (bytes sender)))

/-- The part of `handle_iq_to_occupant` for responses. -/
def handleIqResponse (r : Room) (iq : Iq) (occupant : Occupant) : IqOutcome :=
  match (Base64.decode iq.id).bind unpack with
  | none => .unhandled
  | some (fromBytes, origId, hash) =>
    match ofBytes fromBytes with
    -- no session has such an address
    | none => .unhandled
    | some fromJid =>
      if iq.sender = fromJid ∨ some iq.sender = Jid.bare fromJid then
        match r.jidNick.get fromJid,
          (ord.keys occupant.sessions.keys).find? fun j => md5 (bytes j) = hash with
        | some nick, some session =>
          .routed { iq with sender := nick, recipient := session, id := origId }
        | _, _ => .unhandled
      else .unhandled

/-- The part of `handle_iq_to_occupant` for requests. -/
def handleIqRequest (r : Room) (iq : Iq) (occupant : Option Occupant) : IqOutcome :=
  match r.jidNick.get iq.sender, occupant with
  | none, _ => .refused notAcceptable
  | some _, none => .refused ⟨"cancel", "item-not-found", some "Recipient not in room"⟩
  | some currentNick, some occupant =>
    if iq.recipient = currentNick ∧ iq.type = "get" ∧ iq.ping then .pong
    else
      match occupant.jid with
      | none => .raised
      | some realJid =>
        .routed
          { iq with
            id := rewriteId md5 realJid iq.id iq.sender
            sender := currentNick
            recipient := if iq.personal then (Jid.bare realJid).getD realJid else realJid }

def handleIqToOccupant (r : Room) (iq : Iq) : IqOutcome :=
  let occupant := r.getOccupantByNick iq.recipient
  if iq.IsResponse then occupant.elim .unhandled (r.handleIqResponse md5 ord iq)
  else r.handleIqRequest md5 iq occupant

variable {md5 ord} {r r' : Room} {iq response : Iq}

/-- No two clients of an occupant have the same hash. -/
def NoCollision (md5 : List UInt8 → List UInt8) (o : Occupant) : Prop :=
  ∀ j ∈ o.sessions.keys, ∀ j' ∈ o.sessions.keys, md5 (bytes j) = md5 (bytes j') → j = j'

theorem handleIqToOccupant_request (hreq : ¬ iq.IsResponse) {current : String} {o : Occupant}
    {realJid : String} (hs : r.jidNick.get iq.sender = some current)
    (hne : iq.recipient ≠ current) (ho : r.getOccupantByNick iq.recipient = some o)
    (hj : o.jid = some realJid) :
    r.handleIqToOccupant md5 ord iq = .routed
      { iq with
        id := rewriteId md5 realJid iq.id iq.sender
        sender := current
        recipient := if iq.personal then (Jid.bare realJid).getD realJid else realJid } := by
  unfold handleIqToOccupant handleIqRequest
  dsimp only
  rw [if_neg hreq, hs, ho]
  dsimp only
  rw [if_neg (fun hc => hne hc.1), hj]

/-- A response finds its way back if its identifier decodes to that of the request. -/
theorem handleIqToOccupant_response (hresp : response.IsResponse) {o : Occupant}
    {realJid sender nick : String} {id : List UInt8} (hmd5 : md5 (bytes sender) ≠ [])
    (ho : r.getOccupantByNick response.recipient = some o) (hmem : sender ∈ o.sessions.keys)
    (hcol : NoCollision md5 o) (hn : r.jidNick.get realJid = some nick)
    (hsplit : (Jid.split realJid).isSome) (hzero : 0 ∉ bytes realJid) (hid : 0 ∉ id)
    (hresponse : Base64.decode response.id = Base64.decode (rewriteId md5 realJid id sender))
    (hfrom : response.sender = realJid ∨ some response.sender = Jid.bare realJid) :
    r.handleIqToOccupant md5 ord response =
      .routed { response with sender := nick, recipient := sender, id := id } := by
  have hunpack := unpack_pack hzero (bytes_ne_nil hsplit) hid hmd5
  obtain ⟨session, hfind, hsame⟩ : ∃ session, (ord.keys o.sessions.keys).find?
      (fun j => md5 (bytes j) = md5 (bytes sender)) = some session ∧ session = sender := by
    cases hfind : (ord.keys o.sessions.keys).find? fun j => md5 (bytes j) = md5 (bytes sender) with
    | none =>
      have hno := List.find?_eq_none.mp hfind sender ((ord.mem_keys _ _).mpr hmem)
      simp at hno
    | some session =>
      have hkey := (ord.mem_keys _ _).mp (List.mem_of_find?_eq_some hfind)
      have hhash := List.find?_some hfind
      rw [decide_eq_true_iff] at hhash
      exact ⟨session, rfl, hcol session hkey sender hmem hhash⟩
  subst hsame
  unfold handleIqToOccupant
  dsimp only
  rw [if_pos hresp, ho, Option.elim_some]
  unfold handleIqResponse
  rw [hresponse, rewriteId, Base64.decode_encode, Option.bind_some, hunpack]
  dsimp only
  rw [ofBytes_bytes]
  dsimp only
  rw [if_pos hfrom, hn, hfind]

theorem handleIqToOccupant_routed (hresp : response.IsResponse) {routed : Iq}
    (h : r.handleIqToOccupant md5 ord response = .routed routed) :
    ∃ o realJid id session nick, r.getOccupantByNick response.recipient = some o ∧
      session ∈ o.sessions.keys ∧ r.jidNick.get realJid = some nick ∧
      (response.sender = realJid ∨ some response.sender = Jid.bare realJid) ∧
      Base64.decode response.id = Base64.decode (rewriteId md5 realJid id session) ∧
      routed = { response with sender := nick, recipient := session, id := id } := by
  unfold handleIqToOccupant at h
  dsimp only at h
  rw [if_pos hresp] at h
  cases ho : r.getOccupantByNick response.recipient with
  | none =>
    rw [ho] at h
    cases h
  | some o =>
    rw [ho, Option.elim_some] at h
    unfold handleIqResponse at h
    cases hdecode : Base64.decode response.id with
    | none =>
      rw [hdecode] at h
      cases h
    | some packed =>
      rw [hdecode, Option.bind_some] at h
      split at h
      · cases h
      · rename_i fromBytes origId hash hunpack
        split at h
        · cases h
        · rename_i fromJid hjid
          split at h
          · rename_i hfrom
            split at h
            · rename_i nick session hn hfind
              have hkey := (ord.mem_keys _ _).mp (List.mem_of_find?_eq_some hfind)
              have hhash := List.find?_some hfind
              rw [decide_eq_true_iff] at hhash
              refine ⟨o, fromJid, origId, session, nick, rfl, hkey, hn, hfrom, ?_, ?_⟩
              · rw [rewriteId, Base64.decode_encode, bytes_of_ofBytes hjid, hhash,
                  pack_of_unpack hunpack]
              · cases h
                rfl
            · cases h
          · cases h

/-- A request of one occupant to another is routed so that its response finds the way back, and
no response is routed whose identifier does not decode to what a request would have. -/
theorem private_iq_round_trip (md5 : List UInt8 → List UInt8) (hmd5 : ∀ s, (md5 s).length = 16)
    (ord : KeyOrder String) (r : Room) :
    (∀ (iq : Iq) (current realJid : String) (o : Occupant), ¬ iq.IsResponse →
      r.jidNick.get iq.sender = some current → iq.recipient ≠ current →
      r.getOccupantByNick iq.recipient = some o → o.jid = some realJid →
      (Jid.split realJid).isSome → 0 ∉ bytes realJid → 0 ∉ iq.id →
      ∃ request, r.handleIqToOccupant md5 ord iq = .routed request ∧ request.sender = current ∧
        (request.recipient = realJid ∨ some request.recipient = Jid.bare realJid) ∧
        ∀ (ord' : KeyOrder String) (r' : Room) (o' : Occupant) (response : Iq),
          r'.getOccupantByNick current = some o' → iq.sender ∈ o'.sessions.keys →
          NoCollision md5 o' → r'.jidNick.get realJid = some iq.recipient →
          response.IsResponse → response.id = request.id → response.recipient = current →
          (response.sender = realJid ∨ some response.sender = Jid.bare realJid) →
          r'.handleIqToOccupant md5 ord' response = .routed
            { response with sender := iq.recipient, recipient := iq.sender, id := iq.id }) ∧
    ∀ response routed : Iq, response.IsResponse →
      r.handleIqToOccupant md5 ord response = .routed routed →
      ∃ o realJid id session nick, r.getOccupantByNick response.recipient = some o ∧
        session ∈ o.sessions.keys ∧ r.jidNick.get realJid = some nick ∧
        (response.sender = realJid ∨ some response.sender = Jid.bare realJid) ∧
        Base64.decode response.id = Base64.decode (rewriteId md5 realJid id session) ∧
        routed = { response with sender := nick, recipient := session, id := id } := by
  constructor
  · intro iq current realJid o hreq hs hne ho hj hsplit hzero hid
    refine ⟨_, handleIqToOccupant_request hreq hs hne ho hj, rfl, ?_, ?_⟩
    · dsimp only
      split
      · obtain ⟨parts, hparts⟩ := Option.isSome_iff_exists.mp hsplit
        right
        simp [Jid.bare, hparts]
      · exact Or.inl rfl
    · intro ord' r' o' response ho' hmem hcol hn hresp hrid hto hfrom
      have hhash : md5 (bytes iq.sender) ≠ [] := by
        intro hnil
        have hlen := hmd5 (bytes iq.sender)
        rw [hnil] at hlen
        cases hlen
      rw [← hto] at ho'
      exact handleIqToOccupant_response hresp hhash ho' hmem hcol hn hsplit hzero hid
        (congrArg Base64.decode hrid) hfrom
  · exact fun response routed hresp hrouted => handleIqToOccupant_routed hresp hrouted

/-! ## A request in the room of two users -/

def gardenDigest (s : List UInt8) : List UInt8 :=
  if s = bytes "romeo@montague/orchard" then
    [182, 204, 94, 29, 84, 116, 5, 120, 109, 57, 9, 126, 53, 113, 52, 100]
  else if s = bytes "juliet@capulet/balcony" then
    [132, 36, 13, 64, 244, 86, 240, 220, 243, 173, 161, 48, 43, 189, 212, 163]
  else List.replicate 16 0

theorem gardenDigest_length (s : List UInt8) : (gardenDigest s).length = 16 := by
  unfold gardenDigest
  split
  · rfl
  · split
    · rfl
    · exact List.length_replicate

/-- Romeo asks for the software of Juliet's client. -/
def versionRequest : Iq :=
  { type := "get"
    id := bytes "version1"
    sender := "romeo@montague/orchard"
    recipient := "garden@verona/juliet"
    xmlns := some "jabber:iq:version"
    ping := false }

def versionResult : Iq :=
  { type := "result"
    id := rewriteId gardenDigest "juliet@capulet/balcony" (bytes "version1")
      "romeo@montague/orchard"
    sender := "juliet@capulet/balcony"
    recipient := "garden@verona/romeo"
    xmlns := some "jabber:iq:version"
    ping := false }

theorem garden_juliet : (garden.getOccupantByNick "garden@verona/juliet").map (·.jid) =
    some (some "juliet@capulet/balcony") := by decide +kernel

theorem garden_romeo : (garden.getOccupantByNick "garden@verona/romeo").map (·.sessions.keys) =
    some {"romeo@montague/orchard"} := by decide +kernel

theorem gardenDigest_noCollision {o : Occupant}
    (h : o.sessions.keys = {"romeo@montague/orchard"}) : NoCollision gardenDigest o := by
  intro j hj j' hj' _
  rw [h, Finset.mem_singleton] at hj hj'
  rw [hj, hj']

theorem private_iq_round_trip_garden :
    ∃ request, garden.handleIqToOccupant gardenDigest ascending.order versionRequest =
        .routed request ∧
      garden.handleIqToOccupant gardenDigest ascending.order
          { request with
            type := "result"
            sender := "juliet@capulet/balcony"
            recipient := "garden@verona/romeo" } = .routed
        { request with
          type := "result"
          sender := "garden@verona/juliet"
          recipient := "romeo@montague/orchard"
          id := bytes "version1" } := by
  obtain ⟨juliet, hjuliet, hjid⟩ := Option.map_eq_some_iff.mp garden_juliet
  obtain ⟨romeo, hromeo, hkeys⟩ := Option.map_eq_some_iff.mp garden_romeo
  obtain ⟨request, hrequest, -, -, hback⟩ :=
    (private_iq_round_trip gardenDigest gardenDigest_length ascending.order garden).1
      versionRequest "garden@verona/romeo" "juliet@capulet/balcony" juliet (by decide)
      (by decide +kernel) (by decide) hjuliet hjid (by decide) (by decide +kernel)
      (by decide +kernel)
  refine ⟨request, hrequest, hback ascending.order garden romeo _ hromeo ?_
    (gardenDigest_noCollision hkeys) (by decide +kernel) (Or.inr rfl) rfl rfl (Or.inl rfl)⟩
  rw [hkeys]
  exact Finset.mem_singleton_self _

/-- The same answer with a blank after the identifier. -/
def blankAfter : Iq := { versionResult with id := versionResult.id ++ [32] }

theorem blankAfter_routed :
    (∀ realJid id sender, blankAfter.id ≠ rewriteId gardenDigest realJid id sender) ∧
      garden.handleIqToOccupant gardenDigest ascending.order blankAfter = .routed
        { blankAfter with
          sender := "garden@verona/juliet"
          recipient := "romeo@montague/orchard"
          id := bytes "version1" } := by
  constructor
  · intro realJid id sender heq
    have hmem : 32 ∈ rewriteId gardenDigest realJid id sender := by
      rw [← heq]
      exact List.mem_append_right _ (List.mem_singleton.mpr rfl)
    exact absurd (Base64.encode_not_blank _ 32 hmem) (by decide)
  · obtain ⟨romeo, hromeo, hkeys⟩ := Option.map_eq_some_iff.mp garden_romeo
    have hdecode : Base64.decode blankAfter.id = Base64.decode (rewriteId gardenDigest
        "juliet@capulet/balcony" (bytes "version1") "romeo@montague/orchard") := by
      decide +kernel
    refine handleIqToOccupant_response (by decide) (by decide +kernel) hromeo ?_
      (gardenDigest_noCollision hkeys) (by decide +kernel) (by decide) (by decide +kernel)
      (by decide +kernel) hdecode (Or.inl rfl)
    rw [hkeys]
    exact Finset.mem_singleton_self _

end Room

end Prosody.Muc
