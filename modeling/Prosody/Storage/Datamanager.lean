import Mathlib.Data.Nat.Basic
import Prosody.Library.Paths
import Prosody.Library.Pattern
import Prosody.Library.Separator

/-! # Where data is stored (`util/datamanager.lua`) -/

namespace Prosody.Datamanager

abbrev Bytes := List UInt8

def byte (c : Char) : UInt8 := UInt8.ofNat c.toNat

def bytes (s : String) : Bytes := s.toList.map byte

/-! ## Encoding -/

/-- `%w` -/
def isAlnum (c : UInt8) : Bool :=
  (byte '0' ≤ c && c ≤ byte '9') || (byte 'a' ≤ c && c ≤ byte 'z') ||
    (byte 'A' ≤ c && c ≤ byte 'Z')

/-- `%x` -/
def isHex (c : UInt8) : Bool :=
  (byte '0' ≤ c && c ≤ byte '9') || (byte 'a' ≤ c && c ≤ byte 'f') ||
    (byte 'A' ≤ c && c ≤ byte 'F')

/-- A digit as `%x` of `string.format` has it. -/
def hexDigit (n : ℕ) : UInt8 := if n < 10 then UInt8.ofNat (48 + n) else UInt8.ofNat (87 + n)

def hexValue (c : UInt8) : ℕ :=
  if c ≤ byte '9' then c.toNat - 48 else if byte 'a' ≤ c then c.toNat - 87 else c.toNat - 55

/-- `format("%%%02x", c:byte())` -/
def percent (c : UInt8) : Bytes := [byte '%', hexDigit (c.toNat / 16), hexDigit (c.toNat % 16)]

def encodeBut (kept : UInt8 → Bool) (s : Bytes) : Bytes :=
  s.flatMap fun c => if kept c then [c] else percent c

def encode (s : Bytes) : Bytes := encodeBut isAlnum s

/-- What `store_encode` keeps. -/
def isStoreChar (c : UInt8) : Bool := c = byte '_' || isAlnum c

def storeEncode (s : Bytes) : Bytes := encodeBut isStoreChar s

def decode : Bytes → Bytes
  | c :: a :: b :: s =>
    if c = byte '%' ∧ isHex a ∧ isHex b then
      UInt8.ofNat (16 * hexValue a + hexValue b) :: decode s
    else c :: decode (a :: b :: s)
  | c :: s => c :: decode s
  | [] => []

/-! ## Paths -/

inductive Ext
  | dat
  | list
  deriving DecidableEq

def Ext.text : Ext → Bytes
  | .dat => bytes "dat"
  | .list => bytes "list"

def hostName (host : Option Bytes) : Bytes := (host.map encode).getD (bytes "_global")

def getpath (dataPath : Bytes) (username host : Option Bytes) (datastore : Bytes) (ext : Bytes) :
    Bytes :=
  match username with
  | some username =>
    dataPath ++ byte '/' :: (hostName host ++ byte '/' :: (storeEncode datastore ++
      byte '/' :: (encode username ++ byte '.' :: ext)))
  | none =>
    dataPath ++ byte '/' :: (hostName host ++ byte '/' :: (storeEncode datastore ++
      byte '.' :: ext))

/-! ## Decoding what was encoded -/

theorem hexDigit_spec {n : ℕ} (h : n < 16) : isHex (hexDigit n) ∧ hexValue (hexDigit n) = n := by
  revert n
  decide

theorem decode_cons {c : UInt8} (h : c ≠ byte '%') (s : Bytes) :
    decode (c :: s) = c :: decode s := by
  cases s with
  | nil => rfl
  | cons a s =>
    cases s with
    | nil => rfl
    | cons b s => rw [decode, if_neg fun hc => h hc.1]

theorem decode_percent (c : UInt8) (s : Bytes) : decode (percent c ++ s) = c :: decode s := by
  have hc : c.toNat < 256 := c.toNat_lt
  obtain ⟨hhex, hvalue⟩ := hexDigit_spec (n := c.toNat / 16) (by omega)
  obtain ⟨hhex', hvalue'⟩ := hexDigit_spec (n := c.toNat % 16) (by omega)
  have hbyte : UInt8.ofNat (16 * (c.toNat / 16) + c.toNat % 16) = c := by
    rw [Nat.div_add_mod, UInt8.ofNat_toNat]
  change decode (byte '%' :: _ :: _ :: s) = _
  rw [decode, if_pos ⟨rfl, hhex, hhex'⟩, hvalue, hvalue', hbyte]

variable {kept : UInt8 → Bool}

theorem decode_encodeBut (hkept : kept (byte '%') = false) (s : Bytes) :
    decode (encodeBut kept s) = s := by
  induction s with
  | nil => rfl
  | cons c s ih =>
    rw [encodeBut, List.flatMap_cons, ← encodeBut]
    by_cases hc : kept c
    · have hne : c ≠ byte '%' := by
        rintro rfl
        exact absurd hc (by simp [hkept])
      rw [if_pos hc, List.singleton_append, decode_cons hne, ih]
    · rw [if_neg hc, decode_percent, ih]

theorem decode_encode (s : Bytes) : decode (encode s) = s := decode_encodeBut (by decide) s

theorem decode_storeEncode (s : Bytes) : decode (storeEncode s) = s :=
  decode_encodeBut (by decide) s

variable {s : Bytes}

theorem encode_inj {t : Bytes} (h : encode s = encode t) : s = t := by
  rw [← decode_encode s, h, decode_encode]

theorem storeEncode_inj {t : Bytes} (h : storeEncode s = storeEncode t) : s = t := by
  rw [← decode_storeEncode s, h, decode_storeEncode]

/-! ## What encoded words consist of -/

/-- A letter, a digit, a percent sign or an underscore. -/
def isPlain (c : UInt8) : Bool := isStoreChar c || c = byte '%'

theorem hexDigit_alnum {n : ℕ} (h : n < 16) : isAlnum (hexDigit n) := by
  revert n
  decide

variable {d : UInt8}

theorem percent_plain {c : UInt8} (h : d ∈ percent c) : d = byte '%' ∨ isAlnum d := by
  have hc : c.toNat < 256 := c.toNat_lt
  unfold percent at h
  rcases List.mem_cons.mp h with rfl | h
  · exact Or.inl rfl
  · rcases List.mem_cons.mp h with rfl | h
    · exact Or.inr (hexDigit_alnum (by omega))
    · rw [List.mem_singleton.mp h]
      exact Or.inr (hexDigit_alnum (by omega))

theorem encodeBut_chars (h : d ∈ encodeBut kept s) : kept d ∨ d = byte '%' ∨ isAlnum d := by
  obtain ⟨c, -, hd⟩ := List.mem_flatMap.mp h
  split_ifs at hd with hc
  · rw [List.mem_singleton.mp hd]
    exact Or.inl hc
  · exact Or.inr (percent_plain hd)

theorem encode_chars (h : d ∈ encode s) : d = byte '%' ∨ isAlnum d := by
  rcases encodeBut_chars h with h | h
  · exact Or.inr h
  · exact h

theorem isPlain_of_alnum (h : d = byte '%' ∨ isAlnum d) : isPlain d := by
  unfold isPlain isStoreChar
  rcases h with rfl | h
  · decide
  · simp [h]

theorem encode_plain (h : d ∈ encode s) : isPlain d :=
  isPlain_of_alnum (encode_chars h)

theorem storeEncode_plain (h : d ∈ storeEncode s) : isPlain d := by
  rcases encodeBut_chars h with h | h
  · unfold isPlain
    simp [h]
  · exact isPlain_of_alnum h

theorem hostName_plain {host : Option Bytes} (h : d ∈ hostName host) : isPlain d := by
  cases host with
  | none =>
    have hall : ∀ d ∈ bytes "_global", isPlain d := by decide +kernel
    exact hall d h
  | some host => exact encode_plain h

theorem encodeBut_of_kept (h : ∀ c ∈ s, kept c) : encodeBut kept s = s := by
  induction s with
  | nil => rfl
  | cons c s ih =>
    rw [encodeBut, List.flatMap_cons, ← encodeBut, if_pos (h c List.mem_cons_self),
      ih fun d hd => h d (List.mem_cons_of_mem c hd), List.singleton_append]

theorem length_encodeBut (kept : UInt8 → Bool) (s : Bytes) :
    (encodeBut kept s).length = s.length + 2 * s.countP fun c => !kept c := by
  induction s with
  | nil => rfl
  | cons c s ih =>
    rw [encodeBut, List.flatMap_cons, ← encodeBut, List.length_append, ih, List.length_cons]
    by_cases hc : kept c
    · rw [if_pos hc, List.countP_cons_of_neg (by simp [hc]), List.length_singleton]
      omega
    · rw [if_neg hc, List.countP_cons_of_pos (by simp [hc])]
      change 3 + _ = _
      omega

/-- A character that is not kept makes a word longer. -/
theorem length_lt_encodeBut {c : UInt8} (hc : c ∈ s)
    (h : ¬ kept c) : s.length < (encodeBut kept s).length := by
  have hcount : 0 < s.countP fun c => !kept c :=
    List.countP_pos_iff.mpr ⟨c, hc, by simpa using h⟩
  rw [length_encodeBut]
  omega

/-! ## Paths take arguments apart -/

/-- Different arguments have different paths. -/
theorem getpath_inj {dataPath username username' host host' store store' ext : Bytes}
    (h : getpath dataPath (some username) (some host) store ext =
      getpath dataPath (some username') (some host') store' ext) :
    host = host' ∧ store = store' ∧ username = username' := by
  have hslash {s : Bytes} (hs : ∀ d ∈ s, isPlain d) : byte '/' ∉ s := fun hmem =>
    absurd (hs _ hmem) (by decide)
  have hdot {s : Bytes} (hs : ∀ d ∈ s, isPlain d) : byte '.' ∉ s := fun hmem =>
    absurd (hs _ hmem) (by decide)
  have htail := (List.cons.inj (List.append_cancel_left h)).2
  obtain ⟨hhost, htail⟩ := Separator.append_cons_inj_left (hslash fun _ => encode_plain)
    (hslash fun _ => encode_plain) htail
  obtain ⟨hstore, htail⟩ := Separator.append_cons_inj_left (hslash fun _ => storeEncode_plain)
    (hslash fun _ => storeEncode_plain) htail
  obtain ⟨husername, -⟩ := Separator.append_cons_inj_left (hdot fun _ => encode_plain)
    (hdot fun _ => encode_plain) htail
  exact ⟨encode_inj hhost, storeEncode_inj hstore, encode_inj husername⟩

end Prosody.Datamanager
