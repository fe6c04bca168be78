import Mathlib.Data.List.Nodup
import Prosody.Util.Jid

/-! # Forms of addresses

What can be split, and what stays the same when it is prepared again. -/

namespace Prosody.Jid

/-! ## Escaping -/

def escapes : List (Char × List Char) :=
  [(' ', "\\20".toList), ('"', "\\22".toList), ('&', "\\26".toList), ('\'', "\\27".toList),
    ('/', "\\2f".toList), (':', "\\3a".toList), ('<', "\\3c".toList), ('>', "\\3e".toList),
    ('@', "\\40".toList), ('\\', "\\5c".toList)]

def escapeChar (c : Char) : List Char := (escapes.lookup c).getD [c]

def escape (s : List Char) : List Char := s.flatMap escapeChar

/-- What has been found, or the character that it stands for. -/
def unescapes (found : List Char) : List Char :=
  match escapes.find? fun e => e.2 == found with
  | none => found
  | some e => [e.1]

def unescape : List Char → List Char
  | c :: a :: b :: s =>
    if c = '\\' ∧ a.isHexDigit = true ∧ b.isHexDigit = true then unescapes [c, a, b] ++ unescape s
    else c :: unescape (a :: b :: s)
  | s => s

theorem unescape_cons {c : Char} (h : c ≠ '\\') (s : List Char) :
    unescape (c :: s) = c :: unescape s := by
  match s with
  | [] => rfl
  | [a] => rfl
  | a :: b :: s => rw [unescape, if_neg fun hc => h hc.1]

/-- Each escape stands for its character. -/
theorem escapes_spec : ∀ e ∈ escapes, ∃ a b, e.2 = ['\\', a, b] ∧ a.isHexDigit = true ∧ b.isHexDigit = true ∧
    unescapes e.2 = [e.1] := by
  intro e he
  simp only [escapes, List.mem_cons, List.not_mem_nil, or_false] at he
  rcases he with rfl | rfl | rfl | rfl | rfl | rfl | rfl | rfl | rfl | rfl <;>
    exact ⟨_, _, rfl, rfl, rfl, rfl⟩

theorem unescape_escapeChar (c : Char) (s : List Char) :
    unescape (escapeChar c ++ s) = c :: unescape s := by
  unfold escapeChar
  cases hlookup : escapes.lookup c with
  | none =>
    have hback : c ≠ '\\' := by
      rintro rfl
      cases hlookup
    exact unescape_cons hback s
  | some text =>
    have hmem : (c, text) ∈ escapes := by
      obtain ⟨l₁, l₂, heq, -⟩ := List.lookup_eq_some_iff.mp hlookup
      rw [heq]
      exact List.mem_append_right _ List.mem_cons_self
    obtain ⟨a, b, rfl, ha, hb, hunescapes⟩ := escapes_spec _ hmem
    change unescape ('\\' :: a :: b :: s) = _
    rw [unescape, if_pos ⟨rfl, ha, hb⟩, hunescapes]
    rfl

theorem unescape_escape (s : List Char) : unescape (escape s) = s := by
  induction s with
  | nil => rfl
  | cons c s ih =>
    rw [escape, List.flatMap_cons, unescape_escapeChar]
    exact congrArg (c :: ·) ih

/-! ## Splitting and joining -/

/-- An address as it is written, `[node@]host[/resource]`. -/
def written (parts : Jid) : String :=
  ((parts.node.map (· ++ "@")).getD "") ++ parts.host ++
    ((parts.resource.map ("/" ++ ·)).getD "")

theorem join_eq_written (parts : Jid) : parts.join = parts.written := by
  obtain ⟨node, host, resource⟩ := parts
  cases node <;> cases resource <;> simp [join, written, String.append_assoc]

theorem split_eq_some_iff (jid : String) (parts : Jid) :
    split jid = some parts ↔ parts.WellFormed ∧ parts.written = jid := by
  rw [← join_eq_written]
  constructor
  · exact split_eq_some
  · rintro ⟨hparts, rfl⟩
    exact split_join hparts

theorem bare_eq_some_iff (jid bareJid : String) :
    bare jid = some bareJid ↔
      ∃ parts, split jid = some parts ∧
        ({ parts with resource := none } : Jid).written = bareJid := by
  unfold bare
  rw [Option.map_eq_some_iff]
  simp only [join_eq_written, bareParts]

/-- What can be split is written as its parts, joining is inverse to splitting, the bare address is
the address without its resource, and escapes stand for what has been escaped. -/
theorem split_join_inverse :
    (∀ jid parts, split jid = some parts ↔ parts.WellFormed ∧ parts.written = jid) ∧
    (∀ jid parts, split jid = some parts → parts.join = jid) ∧
    (∀ parts : Jid, parts.WellFormed → split parts.join = some parts) ∧
    (∀ jid bareJid, bare jid = some bareJid ↔ ∃ parts, split jid = some parts ∧
      ({ parts with resource := none } : Jid).written = bareJid) ∧
    ∀ s, unescape (escape s) = s :=
  ⟨split_eq_some_iff, fun _ _ => join_split, fun _ => split_join, bare_eq_some_iff,
    unescape_escape⟩

/-! ## Preparing again -/

/-- A preparation that leaves prepared strings as they are, gives no empty string for another, and
puts no separators in. -/
structure Profile (prep : String → Option String) : Prop where
  idempotent : ∀ s t, prep s = some t → prep t = some t
  ne_empty : ∀ s t, prep s = some t → s ≠ "" → t ≠ ""
  plain : ∀ s t, prep s = some t → (∀ c ∈ s.toList, plain c) → ∀ c ∈ t.toList, plain c

structure Stringprep.Profiles (enc : Stringprep) : Prop where
  nodeprep : Profile enc.nodeprep
  nameprep : Profile enc.nameprep
  resourceprep : Profile enc.resourceprep

section Preparing

variable {enc : Stringprep}

variable {prep : String → Option String}

theorem Profile.plainPart (h : Profile prep) {s t : String}
    (hprep : prep s = some t) (hs : PlainPart s) : PlainPart t :=
  ⟨h.ne_empty s t hprep hs.1, h.plain s t hprep hs.2⟩

theorem prepPart_idempotent (h : Profile prep)
    {part part' : Option String} (hprep : prepPart prep part = some part') :
    prepPart prep part' = some part' := by
  cases part with
  | none =>
    cases hprep
    rfl
  | some s =>
    obtain ⟨t, ht, rfl⟩ := Option.map_eq_some_iff.mp hprep
    rw [prepPart, h.idempotent s t ht]
    rfl

theorem prepPart_eq_some {part : Option String} {t : String}
    (h : prepPart prep part = some (some t)) : ∃ s, part = some s ∧ prep s = some t := by
  cases part with
  | none => cases h
  | some s =>
    obtain ⟨u, hu, heq⟩ := Option.map_eq_some_iff.mp h
    cases heq
    exact ⟨s, rfl, hu⟩

/-- A host without a dot at its end is prepared as it is. -/
theorem stripRoot_of_ne {host : String} (h : host.toList.getLast? ≠ some '.') :
    stripRoot host = host := if_neg h

theorem plainPart_stripRoot {host : String} (h : PlainPart host) (hdot : host ≠ ".") :
    PlainPart (stripRoot host) := by
  unfold stripRoot
  split
  · rename_i hlast
    refine plainPart_ofList ?_ fun c hc => h.2 c ((List.dropLast_sublist _).subset hc)
    intro hnil
    obtain ⟨l, hl⟩ := List.getLast?_eq_some_iff.mp hlast
    rw [hl, List.dropLast_concat] at hnil
    rw [hnil] at hl
    exact hdot (String.toList_inj.mp hl)
  · exact h

theorem preppedSplit_spec (henc : enc.Profiles) {jid : String} {parts : Jid}
    (h : preppedSplit enc jid = some parts) :
    ∃ before, split jid = some before ∧ enc.nameprep (stripRoot before.host) = some parts.host ∧
      prepPart enc.nodeprep parts.node = some parts.node ∧
      prepPart enc.resourceprep parts.resource = some parts.resource ∧
      enc.nameprep parts.host = some parts.host ∧ parts.WellFormed := by
  unfold preppedSplit at h
  obtain ⟨before, hsplit, h⟩ := Option.bind_eq_some_iff.mp h
  have hwell := (split_eq_some hsplit).1
  by_cases hdot : before.host = "."
  · simp [hdot] at h
  simp only [hdot, if_false, Option.bind_eq_bind] at h
  obtain ⟨host, hhost, h⟩ := Option.bind_eq_some_iff.mp h
  obtain ⟨node, hnode, h⟩ := Option.bind_eq_some_iff.mp h
  obtain ⟨resource, hresource, h⟩ := Option.bind_eq_some_iff.mp h
  cases h
  refine ⟨before, hsplit, hhost, prepPart_idempotent henc.nodeprep hnode,
    prepPart_idempotent henc.resourceprep hresource, henc.nameprep.idempotent _ _ hhost, ?_, ?_, ?_⟩
  · intro n hn
    cases hn
    obtain ⟨s, hs, hprep⟩ := prepPart_eq_some hnode
    exact henc.nodeprep.plainPart hprep (hwell.node s hs)
  · exact henc.nameprep.plainPart hhost (plainPart_stripRoot hwell.host hdot)
  · intro r hr
    cases hr
    obtain ⟨s, hs, hprep⟩ := prepPart_eq_some hresource
    exact henc.resourceprep.ne_empty s r hprep (hwell.resource s hs)

theorem preppedSplit_join (henc : enc.Profiles) {jid : String} {parts : Jid}
    (h : preppedSplit enc jid = some parts) :
    preppedSplit enc parts.join = if parts.host = "." then none else
      (enc.nameprep (stripRoot parts.host)).map fun host => { parts with host := host } := by
  obtain ⟨-, -, -, hnode, hresource, -, hwell⟩ := preppedSplit_spec henc h
  unfold preppedSplit
  rw [split_join hwell]
  by_cases hdot : parts.host = "."
  · simp [hdot]
  · simp only [hdot, if_false, hnode, hresource, Option.bind_eq_bind, Option.bind_some]
    cases enc.nameprep (stripRoot parts.host) <;> rfl

/-- The host is not shortened when it is prepared again. -/
def Settled (enc : Stringprep) (host : String) : Prop :=
  host.toList.getLast? ≠ some '.' ∨ (host ≠ "." ∧ enc.nameprep (stripRoot host) = some host)

theorem preppedSplit_join_iff (henc : enc.Profiles) {jid : String} {parts : Jid}
    (h : preppedSplit enc jid = some parts) :
    preppedSplit enc parts.join = some parts ↔ Settled enc parts.host := by
  obtain ⟨-, -, -, -, -, hhost, -⟩ := preppedSplit_spec henc h
  rw [preppedSplit_join henc h]
  unfold Settled
  by_cases hlast : parts.host.toList.getLast? = some '.'
  · have hnot : ¬ parts.host.toList.getLast? ≠ some '.' := fun hne => hne hlast
    rw [or_iff_right hnot]
    by_cases hdot : parts.host = "."
    · simp [hdot]
    · rw [if_neg hdot, Option.map_eq_some_iff]
      constructor
      · rintro ⟨host, hprep, heq⟩
        have hsame : host = parts.host := congrArg Jid.host heq
        rw [hsame] at hprep
        exact ⟨hdot, hprep⟩
      · rintro ⟨-, hprep⟩
        exact ⟨parts.host, hprep, rfl⟩
  · have hdot : parts.host ≠ "." := by
      rintro heq
      rw [heq] at hlast
      exact hlast rfl
    rw [if_neg hdot, stripRoot_of_ne hlast, hhost]
    exact iff_of_true rfl (.inl hlast)

end Preparing

/-- An address stays as it has been prepared, unless its host has been left with a dot at its
end. -/
theorem prep_prep_iff (enc : Stringprep) (henc : enc.Profiles) (jid prepared : String)
    (h : prep enc jid = some prepared) :
    (prep enc prepared = some prepared ∧ preppedSplit enc prepared = preppedSplit enc jid ∧
        preppedSplit enc jid = split prepared) ↔
      ∀ parts ∈ split jid, ∀ host ∈ enc.nameprep (stripRoot parts.host), Settled enc host := by
  obtain ⟨parts, hparts, rfl⟩ := Option.map_eq_some_iff.mp h
  obtain ⟨before, hsplit, hhost, -, -, -, hwell⟩ := preppedSplit_spec henc hparts
  have hcond : (∀ parts ∈ split jid, ∀ host ∈ enc.nameprep (stripRoot parts.host),
      Settled enc host) ↔ Settled enc parts.host := by
    rw [hsplit]
    constructor
    · exact fun hall => hall before rfl parts.host hhost
    · rintro hsettled _ ⟨⟩ host hhost'
      cases hhost.symm.trans hhost'
      exact hsettled
  rw [hcond, ← preppedSplit_join_iff henc hparts, hparts, split_join hwell]
  constructor
  · exact fun hall => hall.2.1
  · exact fun hagain => ⟨by rw [prep, hagain]; rfl, hagain, rfl⟩

/-- A preparation that changes nothing. -/
theorem profile_some : Profile some where
  idempotent := fun _ _ _ => rfl
  ne_empty := by
    rintro s _ ⟨⟩ hs
    exact hs
  plain := by
    rintro s _ ⟨⟩ hs
    exact hs

def plainEnc : Stringprep := ⟨some, some, some⟩

theorem plainEnc_profiles : plainEnc.Profiles := ⟨profile_some, profile_some, profile_some⟩

theorem one_dot_prepared :
    prep plainEnc "user@example./home" = some "user@example/home" ∧
      prep plainEnc "user@example/home" = some "user@example/home" := by
  have h : prep plainEnc "user@example./home" = some "user@example/home" := by decide
  refine ⟨h, ((prep_prep_iff plainEnc plainEnc_profiles _ _ h).mpr ?_).1⟩
  have hsplit : split "user@example./home" = some ⟨some "user", "example.", some "home"⟩ := by
    decide
  rw [hsplit]
  rintro _ ⟨⟩ _ ⟨⟩
  exact .inl (by decide)

/-- A host with two dots is shortened twice. -/
theorem two_dots_prepared :
    ¬ ∀ (enc : Stringprep), enc.Profiles → ∀ jid prepared, prep enc jid = some prepared →
      prep enc prepared = some prepared ∧ preppedSplit enc prepared = preppedSplit enc jid ∧
        preppedSplit enc jid = split prepared := by
  intro h
  have hagain := (h plainEnc plainEnc_profiles "example.." "example." (by decide)).1
  exact absurd hagain (by decide)

end Prosody.Jid
