import Prosody.Library.Separator

/-! # Certificate identities (`util/x509.lua`) -/

namespace Prosody.X509

open Separator

abbrev Name := List Char

def lower (s : Name) : Name := s.map Char.toLower

/-! ## Comparing -/

/-- Everything after the first label, by a substitution of `^[^.]+%.`. -/
def chop (s : Name) : Name :=
  match cut '.' s with
  | some (_ :: _, rest) => rest
  | _ => s

/-- The pattern `^%*%.`. -/
def isWildcard : Name → Bool
  | '*' :: '.' :: _ => true
  | _ => false

section

variable (idnaToAscii nameprep : Name → Option Name)

def matchesName (normHost name : Name) : Bool :=
  normHost == lower name || (isWildcard name && chop normHost == lower (chop name))

def compareDnsname (host : Name) (assertedNames : List Name) : Bool :=
  match idnaToAscii host with
  | none => false
  | some normHost => assertedNames.any (matchesName (lower normHost))

def compareXmppaddr (host : Name) (assertedNames : List Name) : Bool :=
  assertedNames.any fun name =>
    if name.any (fun c => c == '@' || c == '/') then false
    else
      match nameprep name with
      | none => false
      | some normName => nameprep host == some normName

/-- The pattern `^(_[^.]+)%.(.*)`. -/
def srvParts : Name → Option (Name × Name)
  | [] => none
  | c :: tail =>
    if c = '_' then
      (cut '.' tail).bind fun parts =>
        if parts.1 = [] then none else some ('_' :: parts.1, parts.2)
    else none

/-- Service names start with an underscore. -/
def withUnderscore (service : Name) : Name :=
  if service.head? = some '_' then service else '_' :: service

/-- The host is compared once more at the end, with the same result. -/
def matchesSrv (normHost service assertedName : Name) : Bool :=
  match srvParts assertedName with
  | none => false
  | some (assertedService, name) =>
    service == assertedService && (matchesName normHost name || normHost == lower name)

def compareSrvname (host service : Name) (assertedNames : List Name) : Bool :=
  match idnaToAscii host with
  | none => false
  | some normHost => assertedNames.any (matchesSrv (lower normHost) (withUnderscore service))

/-! ## Certificates -/

structure AltNames where
  xmppAddr : Option (List Name)
  dnsSrv : Option (List Name)
  dNSName : Option (List Name)
  uniformResourceIdentifier : Option (List Name)

structure Certificate where
  subjectAltName : Option AltNames
  subject : List (Name × Name)

def oidCommonname : Name := "2.5.4.3".toList

def xmppServices : List Name := ["_xmpp-client".toList, "_xmpp-server".toList]

/-- What the alternative names decide, if they are of a kind that is supported. -/
def verifyAltNames (host : Name) (service : Option Name) (sans : AltNames) : Option Bool :=
  let xmppAddr := sans.xmppAddr.any fun names =>
    service.any (· ∈ xmppServices) && compareXmppaddr nameprep host names
  let dnsSrv := sans.dnsSrv.any fun names =>
    service.any fun service => compareSrvname idnaToAscii host service names
  let dNSName := sans.dNSName.any fun names => compareDnsname idnaToAscii host names
  let hadSupportedAltnames := sans.xmppAddr.isSome || sans.dnsSrv.isSome || sans.dNSName.isSome ||
    sans.uniformResourceIdentifier.isSome
  if xmppAddr || dnsSrv || dNSName then some true
  else if hadSupportedAltnames then some false
  else none

def commonName : (subject : List (Name × Name)) → (cn : Option Name) → Option Name
  | [], cn => cn
  | (oid, value) :: subject, cn =>
    if oid = oidCommonname then
      if cn.isSome then none else commonName subject (some value)
    else commonName subject cn

def verifyIdentity (host : Name) (service : Option Name) (cert : Certificate) : Bool :=
  match cert.subjectAltName.bind (verifyAltNames idnaToAscii nameprep host service) with
  | some verified => verified
  | none =>
    match commonName cert.subject none with
    | none => false
    | some cn => compareDnsname idnaToAscii host [cn]

end

/-! ## What should match -/

/-- The host is the name, or one label before what is behind the wildcard of the name. -/
def Matches (normHost name : Name) : Prop :=
  lower name = normHost ∨
    ∃ label rest, name = '*' :: '.' :: rest ∧ label ≠ [] ∧ '.' ∉ label ∧
      normHost = label ++ '.' :: lower rest

/-- The name stands behind the service. -/
def SrvName (service assertedName name : Name) : Prop :=
  ∃ c tail, withUnderscore service = '_' :: c :: tail ∧ '.' ∉ c :: tail ∧
    assertedName = withUnderscore service ++ '.' :: name

def HasLabel (normHost : Name) : Prop :=
  ∃ label rest, label ≠ [] ∧ '.' ∉ label ∧ normHost = label ++ '.' :: rest

/-- The host has a label to replace, or it is not what is behind a wildcard, or a name of its own
is there as well. -/
def Unambiguous (normHost : Name) (asserted : Name → Prop) : Prop :=
  HasLabel normHost ∨ (∀ rest, asserted ('*' :: '.' :: rest) → lower rest ≠ normHost) ∨
    ∃ name, asserted name ∧ lower name = normHost

/-- The certificate has an alternative name of a supported kind. -/
def HasAltName (cert : Certificate) : Prop :=
  ∃ sans, cert.subjectAltName = some sans ∧
    (sans.xmppAddr ≠ none ∨ sans.dnsSrv ≠ none ∨ sans.dNSName ≠ none ∨
      sans.uniformResourceIdentifier ≠ none)

def commonNames (cert : Certificate) : List (Name × Name) :=
  cert.subject.filter (·.1 = oidCommonname)

section

variable (idnaToAscii nameprep : Name → Option Name) (host service : Name) (names : List Name)

def DnsRight : Prop :=
  compareDnsname idnaToAscii host names = true ↔
    ∃ normHost, idnaToAscii host = some normHost ∧ ∃ name ∈ names, Matches (lower normHost) name

def SrvRight : Prop :=
  compareSrvname idnaToAscii host service names = true ↔
    ∃ normHost, idnaToAscii host = some normHost ∧
      ∃ assertedName ∈ names, ∃ name, SrvName service assertedName name ∧
        Matches (lower normHost) name

/-- The subject only counts where there is no alternative name, and with one common name. -/
def SubjectRight (cert : Certificate) : Prop :=
  ∀ service,
    (HasAltName cert → ∀ subject,
      verifyIdentity idnaToAscii nameprep host service { cert with subject := subject } =
        verifyIdentity idnaToAscii nameprep host service cert) ∧
    (¬ HasAltName cert → 2 ≤ (commonNames cert).length →
      verifyIdentity idnaToAscii nameprep host service cert = false)

def DnsUnambiguous : Prop :=
  ∀ normHost, idnaToAscii host = some normHost → Unambiguous (lower normHost) (· ∈ names)

def SrvUnambiguous : Prop :=
  ∀ normHost, idnaToAscii host = some normHost →
    Unambiguous (lower normHost) fun name =>
      ∃ assertedName ∈ names, SrvName service assertedName name

end

/-! ## Wildcards -/

section Wildcards

variable {normHost name rest label : Name}

theorem chop_label (hne : label ≠ []) (hdot : '.' ∉ label) :
    chop (label ++ '.' :: rest) = rest := by
  rw [chop, cut_append hdot]
  cases label with
  | nil => exact absurd rfl hne
  | cons c label => rfl

theorem chop_of_not_hasLabel (h : ¬ HasLabel normHost) : chop normHost = normHost := by
  rw [chop]
  cases hcut : cut '.' normHost with
  | none => rfl
  | some parts =>
    obtain ⟨label, rest⟩ := parts
    obtain ⟨heq, hdot⟩ := cut_eq_some.mp hcut
    cases label with
    | nil => rfl
    | cons c label => exact absurd ⟨_, rest, List.cons_ne_nil c label, hdot, heq⟩ h

theorem isWildcard_iff : isWildcard name = true ↔ ∃ rest, name = '*' :: '.' :: rest := by
  constructor
  · intro h
    rw [isWildcard.eq_def] at h
    split at h
    · exact ⟨_, rfl⟩
    · cases h
  · rintro ⟨rest, rfl⟩
    rfl

theorem matchesName_iff :
    matchesName normHost name = true ↔
      lower name = normHost ∨ ∃ rest, name = '*' :: '.' :: rest ∧ chop normHost = lower rest := by
  rw [matchesName, Bool.or_eq_true, Bool.and_eq_true, isWildcard_iff, beq_iff_eq, beq_iff_eq]
  refine or_congr eq_comm ?_
  constructor
  · rintro ⟨⟨rest, rfl⟩, hchop⟩
    exact ⟨rest, rfl, hchop⟩
  · rintro ⟨rest, rfl, hchop⟩
    exact ⟨⟨rest, rfl⟩, hchop⟩

/-- Where the host has a first label, the comparison is right. -/
theorem matchesName_of_hasLabel (h : HasLabel normHost) :
    matchesName normHost name = true ↔ Matches normHost name := by
  obtain ⟨label, rest, hne, hdot, rfl⟩ := h
  rw [matchesName_iff, Matches, chop_label hne hdot]
  refine or_congr Iff.rfl ⟨?_, ?_⟩
  · rintro ⟨rest', rfl, rfl⟩
    exact ⟨label, rest', rfl, hne, hdot, rfl⟩
  · rintro ⟨label', rest', rfl, -, hdot', heq⟩
    obtain ⟨-, rfl⟩ := append_cons_inj_left hdot hdot' heq
    exact ⟨rest', rfl, rfl⟩

/-- Otherwise a wildcard matches as if there was nothing to replace. -/
theorem matchesName_of_not_hasLabel (h : ¬ HasLabel normHost) :
    matchesName normHost name = true ↔
      lower name = normHost ∨ ∃ rest, name = '*' :: '.' :: rest ∧ lower rest = normHost := by
  rw [matchesName_iff, chop_of_not_hasLabel h]
  refine or_congr Iff.rfl (exists_congr fun rest => and_congr_right fun _ => eq_comm)

theorem matches_of_not_hasLabel (h : ¬ HasLabel normHost) :
    Matches normHost name ↔ lower name = normHost := by
  refine or_iff_left ?_
  rintro ⟨label, rest, -, hne, hdot, heq⟩
  exact h ⟨label, lower rest, hne, hdot, heq⟩

theorem matches_iff_unambiguous {asserted : Name → Prop} :
    ((∃ name, asserted name ∧ matchesName normHost name = true) ↔
        ∃ name, asserted name ∧ Matches normHost name) ↔ Unambiguous normHost asserted := by
  by_cases h : HasLabel normHost
  · refine iff_of_true ?_ (.inl h)
    exact exists_congr fun name => and_congr_right fun _ => matchesName_of_hasLabel h
  · have hcode : ∀ name, matchesName normHost name = true ↔ _ := fun name =>
      @matchesName_of_not_hasLabel normHost name h
    have hspec : ∀ name, Matches normHost name ↔ _ := fun name =>
      @matches_of_not_hasLabel normHost name h
    rw [Unambiguous, or_iff_right h]
    constructor
    · intro heq
      by_cases hwild : ∀ rest, asserted ('*' :: '.' :: rest) → lower rest ≠ normHost
      · exact .inl hwild
      · simp only [not_forall, not_not] at hwild
        obtain ⟨rest, hin, hrest⟩ := hwild
        obtain ⟨name, hname, hmatch⟩ := heq.mp ⟨_, hin, (hcode _).mpr (.inr ⟨rest, rfl, hrest⟩)⟩
        exact .inr ⟨name, hname, (hspec name).mp hmatch⟩
    · intro hcond
      constructor
      · rintro ⟨name, hin, hmatch⟩
        obtain hsame | ⟨rest, rfl, hrest⟩ := (hcode name).mp hmatch
        · exact ⟨name, hin, (hspec name).mpr hsame⟩
        · obtain hwild | ⟨name', hin', hsame⟩ := hcond
          · exact absurd hrest (hwild rest hin)
          · exact ⟨name', hin', (hspec name').mpr hsame⟩
      · rintro ⟨name, hin, hmatch⟩
        exact ⟨name, hin, (hcode name).mpr (.inl ((hspec name).mp hmatch))⟩

end Wildcards

/-! ## Host names and service names -/

section Names

variable {idnaToAscii nameprep : Name → Option Name} {host service : Name} {names : List Name}

theorem dnsRight_iff : DnsRight idnaToAscii host names ↔ DnsUnambiguous idnaToAscii host names := by
  rw [DnsRight, DnsUnambiguous, compareDnsname]
  cases hidna : idnaToAscii host with
  | none => simp
  | some normHost =>
    simp only [Option.some.injEq, exists_eq_left', forall_eq']
    rw [← matches_iff_unambiguous]
    simp only [List.any_eq_true]

theorem srvParts_eq_some {assertedName assertedService name : Name} :
    srvParts assertedName = some (assertedService, name) ↔
      ∃ c tail, assertedService = '_' :: c :: tail ∧ '.' ∉ c :: tail ∧
        assertedName = assertedService ++ '.' :: name := by
  constructor
  · intro h
    cases assertedName with
    | nil => cases h
    | cons c tail =>
      rw [srvParts] at h
      split_ifs at h with hc
      obtain ⟨⟨label, rest⟩, hcut, hsome⟩ := Option.bind_eq_some_iff.mp h
      obtain ⟨rfl, hdot⟩ := cut_eq_some.mp hcut
      dsimp only at hsome
      split_ifs at hsome with hne
      obtain ⟨rfl, rfl⟩ := Prod.mk.inj (Option.some.inj hsome)
      obtain ⟨d, label, rfl⟩ := List.exists_cons_of_ne_nil hne
      exact ⟨d, label, rfl, hdot, by rw [hc]; rfl⟩
  · rintro ⟨c, tail, rfl, hdot, rfl⟩
    have hcut : cut '.' (c :: tail ++ '.' :: name) = some (c :: tail, name) := cut_append hdot
    rw [List.cons_append, srvParts, if_pos rfl, hcut]
    rfl

theorem matchesSrv_iff {normHost assertedName : Name} :
    matchesSrv normHost (withUnderscore service) assertedName = true ↔
      ∃ name, SrvName service assertedName name ∧ matchesName normHost name = true := by
  have hagain : ∀ name, (matchesName normHost name || normHost == lower name) = true ↔
      matchesName normHost name = true := by
    intro name
    rw [Bool.or_eq_true, or_iff_left_of_imp]
    intro hsame
    exact matchesName_iff.mpr (.inl (beq_iff_eq.mp hsame).symm)
  rw [matchesSrv]
  constructor
  · intro h
    cases hparts : srvParts assertedName with
    | none =>
      rw [hparts] at h
      cases h
    | some parts =>
      rw [hparts] at h
      obtain ⟨hservice, hmatch⟩ := (Bool.and_eq_true _ _).mp h
      obtain ⟨c, tail, hsplit, hdot, heq⟩ := srvParts_eq_some.mp hparts
      have hsame := beq_iff_eq.mp hservice
      exact ⟨parts.2, ⟨c, tail, hsame.trans hsplit, hdot, by rw [hsame, heq]⟩,
        (hagain parts.2).mp hmatch⟩
  · rintro ⟨name, ⟨c, tail, hservice, hdot, heq⟩, hmatch⟩
    have hparts : srvParts assertedName = some (withUnderscore service, name) :=
      srvParts_eq_some.mpr ⟨c, tail, hservice, hdot, heq⟩
    rw [hparts]
    exact (Bool.and_eq_true _ _).mpr ⟨beq_self_eq_true _, (hagain name).mpr hmatch⟩

theorem srvRight_iff :
    SrvRight idnaToAscii host service names ↔ SrvUnambiguous idnaToAscii host service names := by
  rw [SrvRight, SrvUnambiguous, compareSrvname]
  cases hidna : idnaToAscii host with
  | none => simp
  | some normHost =>
    simp only [Option.some.injEq, exists_eq_left', forall_eq']
    have hswap : ∀ P : Name → Prop,
        (∃ assertedName ∈ names, ∃ name, SrvName service assertedName name ∧ P name) ↔
          ∃ name, (∃ assertedName ∈ names, SrvName service assertedName name) ∧ P name := by
      intro P
      constructor
      · rintro ⟨assertedName, hin, name, hsrv, hP⟩
        exact ⟨name, ⟨assertedName, hin, hsrv⟩, hP⟩
      · rintro ⟨name, ⟨assertedName, hin, hsrv⟩, hP⟩
        exact ⟨assertedName, hin, name, hsrv, hP⟩
    rw [← matches_iff_unambiguous, ← hswap, ← hswap]
    simp only [List.any_eq_true, matchesSrv_iff]

/-! ## The subject -/

theorem verifyAltNames_eq_none {sans : AltNames} {s : Option Name} :
    verifyAltNames idnaToAscii nameprep host s sans = none ↔
      sans.xmppAddr = none ∧ sans.dnsSrv = none ∧ sans.dNSName = none ∧
        sans.uniformResourceIdentifier = none := by
  obtain ⟨xmppAddr, dnsSrv, dNSName, uri⟩ := sans
  rw [verifyAltNames]
  dsimp only
  constructor
  · intro h
    split_ifs at h with hmatch hsupported
    simpa [and_assoc] using hsupported
  · rintro ⟨rfl, rfl, rfl, rfl⟩
    rfl

theorem hasAltName_iff {cert : Certificate} {s : Option Name} :
    HasAltName cert ↔
      cert.subjectAltName.bind (verifyAltNames idnaToAscii nameprep host s) ≠ none := by
  rw [HasAltName]
  cases hsans : cert.subjectAltName with
  | none => simp
  | some sans =>
    rw [Option.bind_some, Ne, verifyAltNames_eq_none]
    simp only [Option.some.injEq, exists_eq_left', not_and_or, ne_eq]

/-- The loop over the subject, once it has seen a common name. -/
theorem commonName_some {subject : List (Name × Name)} {cn : Name} :
    commonName subject (some cn) =
      if subject.filter (·.1 = oidCommonname) = [] then some cn else none := by
  induction subject with
  | nil => rfl
  | cons dn subject ih =>
    obtain ⟨oid, value⟩ := dn
    rw [commonName]
    by_cases hoid : oid = oidCommonname
    · rw [if_pos hoid, List.filter_cons_of_pos (by simpa using hoid)]
      rfl
    · rw [if_neg hoid, ih, List.filter_cons_of_neg (by simpa using hoid)]

/-- Two common names are none. -/
theorem commonName_two {subject : List (Name × Name)}
    (htwo : 2 ≤ (subject.filter (·.1 = oidCommonname)).length) :
    commonName subject none = none := by
  induction subject with
  | nil => exact absurd htwo (by decide)
  | cons dn subject ih =>
    obtain ⟨oid, value⟩ := dn
    rw [commonName]
    by_cases hoid : oid = oidCommonname
    · rw [List.filter_cons_of_pos (by simpa using hoid), List.length_cons] at htwo
      have hmore : subject.filter (·.1 = oidCommonname) ≠ [] :=
        List.length_pos_iff.mp (by omega)
      rw [if_pos hoid]
      exact commonName_some.trans (if_neg hmore)
    · rw [List.filter_cons_of_neg (by simpa using hoid)] at htwo
      rw [if_neg hoid]
      exact ih htwo

theorem subjectRight (cert : Certificate) : SubjectRight idnaToAscii nameprep host cert := by
  intro s
  constructor
  · intro halt subject
    obtain ⟨verified, hverified⟩ := Option.ne_none_iff_exists'.mp
      ((@hasAltName_iff idnaToAscii nameprep host cert s).mp halt)
    rw [verifyIdentity, verifyIdentity, hverified]
  · intro hnone htwo
    rw [hasAltName_iff, not_not] at hnone
    rw [verifyIdentity, hnone]
    dsimp only
    rw [commonName_two htwo]

/-- The names are compared as they should be unless a wildcard stands for the host itself. -/
theorem identities_are_right_iff (idnaToAscii nameprep : Name → Option Name) (host service : Name)
    (names : List Name) (cert : Certificate) :
    (DnsRight idnaToAscii host names ∧ SrvRight idnaToAscii host service names ∧
        SubjectRight idnaToAscii nameprep host cert) ↔
      DnsUnambiguous idnaToAscii host names ∧ SrvUnambiguous idnaToAscii host service names := by
  rw [dnsRight_iff, srvRight_iff, and_iff_left (subjectRight cert)]

/-- The wildcard matches a host that has nothing in its place. -/
theorem wildcard_matches_its_domain : ¬ DnsRight some "com".toList ["*.com".toList] := by
  intro hright
  obtain ⟨normHost, hidna, name, hin, hmatch⟩ := hright.mp (by decide)
  obtain rfl := Option.some.inj hidna
  obtain rfl := List.mem_singleton.mp hin
  obtain hsame | ⟨label, rest, -, -, -, heq⟩ := hmatch
  · exact absurd hsame (by decide)
  · have hdot : '.' ∈ lower "com".toList := by
      rw [heq]
      exact List.mem_append_right label List.mem_cons_self
    exact absurd hdot (by decide)

end Names

end Prosody.X509
