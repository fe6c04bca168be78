import Mathlib.Data.List.TakeWhile

/-! # Addresses

The functions of `util/jid.lua` on addresses `node@host/resource`. The three string
preparations come from a library and are a parameter. -/

namespace Prosody

/-- Node, host and resource of an address. -/
structure Jid where
  node : Option String
  host : String
  resource : Option String
  deriving DecidableEq

namespace Jid

/-- The characters of the pattern class `[^@/]`. -/
def plain (c : Char) : Bool := c != '@' && c != '/'

/-- Host and resource, from the position where the host starts. -/
def splitHost (rest : List Char) : Option (String × Option String) :=
  match rest.takeWhile plain, rest.dropWhile plain with
  | [], _ => none
  | c :: host, [] => some (.ofList (c :: host), none)
  | c :: host, '/' :: r :: resource =>
    some (.ofList (c :: host), some (.ofList (r :: resource)))
  | _, _ => none

def split (jid : String) : Option Jid :=
  match jid.toList.takeWhile plain, jid.toList.dropWhile plain with
  | c :: node, '@' :: rest =>
    (splitHost rest).map fun (host, resource) => ⟨some (.ofList (c :: node)), host, resource⟩
  | _, _ => (splitHost jid.toList).map fun (host, resource) => ⟨none, host, resource⟩

def join (parts : Jid) : String :=
  match parts.node, parts.resource with
  | some node, some resource => node ++ "@" ++ parts.host ++ "/" ++ resource
  | some node, none => node ++ "@" ++ parts.host
  | none, some resource => parts.host ++ "/" ++ resource
  | none, none => parts.host

def bareParts (parts : Jid) : Jid := { parts with resource := none }

def bare (jid : String) : Option String :=
  (split jid).map fun parts => join parts.bareParts

def resourceOf (jid : String) : Option String := (split jid).bind Jid.resource

/-- The preparations of `util.encodings`, without a value for what they refuse. -/
structure Stringprep where
  nodeprep : String → Option String
  nameprep : String → Option String
  resourceprep : String → Option String

def prepPart (prep : String → Option String) : Option String → Option (Option String)
  | none => some none
  | some part => (prep part).map some

/-- The host without the empty label of the root. -/
def stripRoot (host : String) : String :=
  if host.toList.getLast? = some '.' then .ofList host.toList.dropLast else host

def preppedSplit (enc : Stringprep) (jid : String) : Option Jid := do
  let parts ← split jid
  if parts.host = "." then none
  let host ← enc.nameprep (stripRoot parts.host)
  let node ← prepPart enc.nodeprep parts.node
  let resource ← prepPart enc.resourceprep parts.resource
  return ⟨node, host, resource⟩

def prep (enc : Stringprep) (jid : String) : Option String :=
  (preppedSplit enc jid).map join

/-! ## Well-formed addresses -/

def PlainPart (part : String) : Prop := part ≠ "" ∧ ∀ c ∈ part.toList, plain c

/-- The parts that an address can be split into. -/
structure WellFormed (parts : Jid) : Prop where
  node : ∀ node ∈ parts.node, PlainPart node
  host : PlainPart parts.host
  resource : ∀ resource ∈ parts.resource, resource ≠ ""

variable {l : List Char}

theorem plainPart_ofList (hl : l ≠ []) (h : ∀ c ∈ l, plain c) : PlainPart (.ofList l) := by
  constructor
  · intro he
    apply hl
    simpa using congrArg String.toList he
  · simpa using h

theorem PlainPart.toList_ne_nil {part : String} (h : PlainPart part) : part.toList ≠ [] := by
  intro he
  apply h.1
  rw [← String.toList_inj, he]
  rfl

theorem takeWhile_append {t : List Char} (h : ∀ c ∈ l, plain c)
    (hrest : ∀ c ∈ t.head?, plain c = false) : (l ++ t).takeWhile plain = l := by
  rw [List.takeWhile_append_of_pos h]
  cases t with
  | nil => simp
  | cons c t => simp [hrest c rfl]

theorem dropWhile_append {t : List Char} (h : ∀ c ∈ l, plain c)
    (hrest : ∀ c ∈ t.head?, plain c = false) : (l ++ t).dropWhile plain = t := by
  rw [List.dropWhile_append_of_pos h]
  cases t with
  | nil => simp
  | cons c t => simp [hrest c rfl]

def hostChars (host : String) (resource : Option String) : List Char :=
  host.toList ++ (resource.map fun r => '/' :: r.toList).getD []

variable {host : String}

theorem splitHost_hostChars {resource : Option String} (hh : PlainPart host)
    (hr : ∀ r ∈ resource, r ≠ "") :
    splitHost (hostChars host resource) = some (host, resource) := by
  obtain ⟨c, cs, hc⟩ := List.exists_cons_of_ne_nil hh.toList_ne_nil
  have hhost : host = .ofList (c :: cs) := by rw [← hc, String.ofList_toList]
  cases resource with
  | none =>
    have ht := takeWhile_append (t := []) hh.2 (by simp)
    have hd := dropWhile_append (t := []) hh.2 (by simp)
    rw [hc] at ht hd
    simp only [splitHost, hostChars, Option.map_none, Option.getD_none, hc, ht, hd]
    rw [hhost]
  | some r =>
    have hne : r.toList ≠ [] := by
      intro he
      apply hr r rfl
      rw [← String.toList_inj, he]
      rfl
    obtain ⟨d, ds, hd'⟩ := List.exists_cons_of_ne_nil hne
    have hres : r = .ofList (d :: ds) := by rw [← hd', String.ofList_toList]
    have ht := takeWhile_append (t := '/' :: r.toList) hh.2 (by simp [plain])
    have hd := dropWhile_append (t := '/' :: r.toList) hh.2 (by simp [plain])
    rw [hc, hd'] at ht hd
    simp only [splitHost, hostChars, Option.map_some, Option.getD_some, hc, hd', ht, hd]
    rw [hhost, hres]

theorem splitHost_eq_some {rest : List Char} {resource : Option String}
    (h : splitHost rest = some (host, resource)) :
    PlainPart host ∧ (∀ r ∈ resource, r ≠ "") ∧ rest = hostChars host resource := by
  have hplain : ∀ c ∈ rest.takeWhile plain, plain c := fun c hc => List.mem_takeWhile_imp hc
  have hrest := List.takeWhile_append_dropWhile (p := plain) (l := rest)
  unfold splitHost at h
  split at h
  · cases h
  · rename_i c cs ht hd
    cases h
    rw [ht, hd] at hrest
    rw [ht] at hplain
    refine ⟨plainPart_ofList (List.cons_ne_nil _ _) hplain, by simp, ?_⟩
    simpa [hostChars] using hrest.symm
  · rename_i c cs r rs ht hd
    cases h
    rw [ht, hd] at hrest
    rw [ht] at hplain
    refine ⟨plainPart_ofList (List.cons_ne_nil _ _) hplain, ?_, ?_⟩
    · rintro _ ⟨⟩ he
      simpa using congrArg String.toList he
    · simpa [hostChars] using hrest.symm
  · cases h

theorem toList_join (parts : Jid) :
    parts.join.toList = (parts.node.map fun n => n.toList ++ ['@']).getD [] ++
      hostChars parts.host parts.resource := by
  obtain ⟨node, host, resource⟩ := parts
  cases node <;> cases resource <;> simp [join, hostChars]

variable {parts : Jid}

/-- Joining is inverse to splitting on the parts that splitting can produce. -/
theorem split_join (h : parts.WellFormed) : split parts.join = some parts := by
  obtain ⟨node, host, resource⟩ := parts
  have hsplit := splitHost_hostChars h.host h.resource
  have hchars := toList_join ⟨node, host, resource⟩
  unfold split
  cases node with
  | none =>
    simp only [Option.map_none, Option.getD_none, List.nil_append] at hchars
    rw [hchars]
    have hhead : ∀ node rest, (hostChars host resource).dropWhile plain ≠ '@' :: rest ∨
        (hostChars host resource).takeWhile plain ≠ node := by
      intro node rest
      left
      rw [hostChars, dropWhile_append h.host.2 (by cases resource <;> simp [plain])]
      cases resource <;> simp
    split
    · rename_i c cs rest ht hd
      rcases hhead (c :: cs) rest with hne | hne
      · exact absurd hd hne
      · exact absurd ht hne
    · simp [hsplit]
  | some node =>
    have hn : PlainPart node := h.node node rfl
    obtain ⟨c, cs, hc⟩ := List.exists_cons_of_ne_nil hn.toList_ne_nil
    simp only [Option.map_some, Option.getD_some, List.append_assoc, List.singleton_append]
      at hchars
    have ht := takeWhile_append (t := '@' :: hostChars host resource) hn.2 (by simp [plain])
    have hd := dropWhile_append (t := '@' :: hostChars host resource) hn.2 (by simp [plain])
    have hnode : node = .ofList (c :: cs) := by rw [← hc, String.ofList_toList]
    rw [hchars, ht, hd, hc]
    simp only [hsplit, Option.map_some, hnode]

variable {jid : String}

theorem split_eq_some (h : split jid = some parts) : parts.WellFormed ∧ parts.join = jid := by
  have hplain : ∀ c ∈ jid.toList.takeWhile plain, plain c :=
    fun c hc => List.mem_takeWhile_imp hc
  have hjid := List.takeWhile_append_dropWhile (p := plain) (l := jid.toList)
  unfold split at h
  split at h
  · rename_i c cs rest ht hd
    obtain ⟨⟨host, resource⟩, hs, rfl⟩ := Option.map_eq_some_iff.mp h
    obtain ⟨hh, hr, rfl⟩ := splitHost_eq_some hs
    rw [ht, hd] at hjid
    rw [ht] at hplain
    constructor
    · refine ⟨?_, hh, hr⟩
      rintro _ ⟨⟩
      exact plainPart_ofList (List.cons_ne_nil _ _) hplain
    · rw [← String.toList_inj, toList_join]
      simpa using hjid
  · obtain ⟨⟨host, resource⟩, hs, rfl⟩ := Option.map_eq_some_iff.mp h
    obtain ⟨hh, hr, he⟩ := splitHost_eq_some hs
    refine ⟨⟨by simp, hh, hr⟩, ?_⟩
    rw [← String.toList_inj, toList_join]
    simpa using he.symm

theorem join_split (h : split jid = some parts) : parts.join = jid := (split_eq_some h).2

theorem WellFormed.bareParts (h : parts.WellFormed) : parts.bareParts.WellFormed :=
  ⟨h.node, h.host, by simp [Jid.bareParts]⟩

/-- A bare address has the node and the host of the address it was taken from. -/
theorem split_bare {bareJid : String} (h : bare jid = some bareJid) :
    ∃ parts, split jid = some parts ∧ split bareJid = some parts.bareParts := by
  obtain ⟨parts, hs, rfl⟩ := Option.map_eq_some_iff.mp h
  exact ⟨parts, hs, split_join (split_eq_some hs).1.bareParts⟩

theorem bare_bare {bareJid : String} (h : bare jid = some bareJid) :
    bare bareJid = some bareJid := by
  obtain ⟨parts, hs, hb⟩ := split_bare h
  simp only [bare, hs, hb, Option.map_some] at h ⊢
  exact h

/-- An address with a node is not a host. -/
theorem join_ne_host (parts : Jid) (hn : parts.node ≠ none)
    (hh : PlainPart host) : parts.join ≠ host := by
  obtain ⟨node, hnode⟩ := Option.ne_none_iff_exists'.mp hn
  rintro rfl
  have hat : '@' ∈ parts.join.toList := by
    rw [toList_join, hnode]
    simp
  have hplain := hh.2 '@' hat
  simp [plain] at hplain

theorem node_of_bareParts_join (hh : PlainPart host)
    (heq : parts.bareParts.join = host) : parts.node = none ∧ parts.host = host := by
  have hnode : parts.node = none := by
    by_contra hn
    exact join_ne_host parts.bareParts hn hh heq
  refine ⟨hnode, ?_⟩
  rw [← heq]
  simp [join, Jid.bareParts, hnode]

/-- The resource starts at the first slash. -/
theorem WellFormed.slash_notMem (h : parts.WellFormed) : '/' ∉ parts.bareParts.join.toList := by
  have hfree : ∀ part, PlainPart part → '/' ∉ part.toList := by
    intro part hp hm
    have hplain := hp.2 '/' hm
    simp [plain] at hplain
  have hhost := hfree _ h.host
  rw [toList_join]
  cases hn : parts.node with
  | none => simpa [Jid.bareParts, hn, hostChars] using hhost
  | some node =>
    have hnode := hfree node (h.node node hn)
    simpa [Jid.bareParts, hn, hostChars] using ⟨hnode, hhost⟩

theorem join_of_resource {resource : String} (h : parts.resource = some resource) :
    parts.join = parts.bareParts.join ++ "/" ++ resource := by
  obtain ⟨node, host, res⟩ := parts
  cases h
  cases node with
  | none => rfl
  | some node => simp [join, bareParts, String.append_assoc]

end Jid

end Prosody
