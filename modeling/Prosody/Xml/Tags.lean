import Prosody.Xml.Lxp

/-! # Tags are parsed as they were written -/

namespace Prosody.Xml

variable {L : Lua}

/-! ## Escaped text -/

/-- A character that neither ends a tag nor a quoted value. -/
def Quiet (c : Char) : Prop := c ≠ '<' ∧ c ≠ '>' ∧ isQuote c = false

theorem escapeChar_quiet {c d : Char} (h : d ∈ escapeChar c) : Quiet d := by
  unfold escapeChar at h
  split_ifs at h with h1 h2 h3 h4 h5
  · revert d
    simp [Quiet, isQuote]
  · revert d
    simp [Quiet, isQuote]
  · revert d
    simp [Quiet, isQuote]
  · revert d
    simp [Quiet, isQuote]
  · revert d
    simp [Quiet, isQuote]
  · obtain rfl := List.mem_singleton.mp h
    exact ⟨h3, h4, by simp [isQuote, h1, h2]⟩

theorem xmlEscape_quiet {s : Text} {d : Char} (h : d ∈ xmlEscape s) : Quiet d := by
  obtain ⟨c, -, hc⟩ := List.mem_flatMap.mp h
  exact escapeChar_quiet hc

theorem unescapeUpTo_escapeChar (n : ℕ) (c : Char) (t : Text) :
    L.unescapeUpTo (n + 1) (escapeChar c ++ t) = (L.unescapeUpTo n t).map (c :: ·) := by
  unfold escapeChar
  split_ifs with h1 h2 h3 h4 h5
  · subst h1
    simp [Lua.unescapeUpTo, Lua.entityMap]
  · subst h2
    simp [Lua.unescapeUpTo, Lua.entityMap]
  · subst h3
    simp [Lua.unescapeUpTo, Lua.entityMap]
  · subst h4
    simp [Lua.unescapeUpTo, Lua.entityMap]
  · subst h5
    simp [Lua.unescapeUpTo, Lua.entityMap]
  · simp [Lua.unescapeUpTo, h5]

theorem unescapeUpTo_xmlEscape {n : ℕ} {s : Text} (h : s.length ≤ n) :
    L.unescapeUpTo n (xmlEscape s) = some s := by
  induction s generalizing n with
  | nil => cases n <;> rfl
  | cons c s ih =>
    obtain ⟨n, rfl⟩ : ∃ m, n = m + 1 := ⟨n - 1, by simp at h; omega⟩
    rw [xmlEscape, List.flatMap_cons, unescapeUpTo_escapeChar, ← xmlEscape,
      ih (by simpa using h)]
    rfl

theorem length_le_xmlEscape (s : Text) : s.length ≤ (xmlEscape s).length := by
  have hpos : ∀ c, 0 < (escapeChar c).length := by
    intro c
    unfold escapeChar
    split_ifs <;> simp
  induction s with
  | nil => exact Nat.zero_le _
  | cons c s ih =>
    have := hpos c
    simp only [xmlEscape, List.flatMap_cons, List.length_append, List.length_cons] at ih ⊢
    omega

theorem xmlUnescape_xmlEscape (s : Text) : L.xmlUnescape (xmlEscape s) = some s :=
  unescapeUpTo_xmlEscape (length_le_xmlEscape s)

/-! ## Attributes -/

/-- A name that can stand in a tag: it has none of the characters that mean something there. -/
structure IsName (s : Text) : Prop where
  ne_nil : s ≠ []
  plain : ∀ c ∈ s, Quiet c ∧ c ≠ '=' ∧ isSpace c = false ∧ c ≠ '/' ∧ c ≠ '!' ∧ c ≠ '?' ∧
    c ≠ nsSeparator

theorem matchAttr_attrText {k : Text} (hk : IsName k) (v rest : Text) :
    matchAttr (k ++ '=' :: '\'' :: (xmlEscape v ++ '\'' :: rest)) =
      some (k, xmlEscape v, rest) := by
  have hname : ∀ c ∈ k, (!(c = '=' || isSpace c)) = true := by
    intro c hc
    obtain ⟨-, heq, hspace, -⟩ := hk.plain c hc
    simp [heq, hspace]
  have hvalue : ∀ c ∈ xmlEscape v, (!isQuote c) = true := by
    intro c hc
    simp [(xmlEscape_quiet hc).2.2]
  unfold matchAttr
  rw [List.takeWhile_append_of_pos hname, List.dropWhile_append_of_pos hname]
  simp only [List.takeWhile_cons, List.dropWhile_cons, decide_true, Bool.true_or, Bool.not_true,
    if_false, List.append_nil, Bool.false_eq_true]
  rw [if_pos ⟨hk.ne_nil, by decide, by simp [isQuote]⟩, List.takeWhile_append_of_pos hvalue,
    List.dropWhile_append_of_pos hvalue]
  simp [isQuote]

/-- The text of attributes that are written one after the other. -/
def attrsOf (ps : List (Text × Text)) : Text := (ps.map fun p => attrText p.1 p.2).flatten

theorem attrPairs_attrsOf {ps : List (Text × Text)} (hps : ∀ p ∈ ps, IsName p.1) {n : ℕ}
    (hn : 2 * ps.length ≤ n) :
    attrPairs n (attrsOf ps) = ps.map fun p => (p.1, xmlEscape p.2) := by
  induction ps generalizing n with
  | nil =>
    cases n with
    | zero => rfl
    | succ n => rfl
  | cons p ps ih =>
    obtain ⟨n, rfl⟩ : ∃ m, n = m + 2 := ⟨n - 2, by simp at hn; omega⟩
    have hmatch := matchAttr_attrText (hps p List.mem_cons_self) p.2 (attrsOf ps)
    have htext : attrsOf (p :: ps) =
        ' ' :: (p.1 ++ '=' :: '\'' :: (xmlEscape p.2 ++ '\'' :: attrsOf ps)) := by
      simp [attrsOf, attrText]
    have hspace : matchAttr (attrsOf (p :: ps)) = none := by
      rw [htext]
      rfl
    rw [attrPairs, hspace]
    simp only
    rw [if_neg (by rw [htext]; simp), htext, List.tail_cons, attrPairs, hmatch]
    simp only [List.map_cons]
    rw [ih (fun q hq => hps q (List.mem_cons_of_mem _ hq)) (by simp at hn; omega)]

def tableOf (ps : List (Text × Text)) : Table Text Text :=
  Table.assign Prod.fst (fun p => some p.2) ∅ ps

theorem mapM_unescape (ps : List (Text × Text)) :
    (ps.map fun p => (p.1, xmlEscape p.2)).mapM
      (fun p => (L.xmlUnescape p.2).map (Prod.mk p.1)) = some ps := by
  induction ps with
  | nil => rfl
  | cons p ps ih =>
    rw [List.map_cons, List.mapM_cons, ih, xmlUnescape_xmlEscape]
    rfl

theorem length_attrsOf (ps : List (Text × Text)) : 2 * ps.length ≤ (attrsOf ps).length := by
  induction ps with
  | nil => simp [attrsOf]
  | cons p ps ih =>
    simp only [attrsOf, attrText, List.map_cons, List.flatten_cons, List.length_append,
      List.length_cons] at ih ⊢
    omega

theorem parseTag_attrsOf {name : Text} (hname : IsName name) {ps : List (Text × Text)}
    (hps : ∀ p ∈ ps, IsName p.1) :
    L.parseTag (name ++ attrsOf ps) = some (name, tableOf ps) := by
  have hplain : ∀ c ∈ name, (!isSpace c) = true := by
    intro c hc
    simp [(hname.plain c hc).2.2.1]
  have hstart : (name ++ attrsOf ps).dropWhile isSpace = name ++ attrsOf ps := by
    obtain ⟨c, cs, rfl⟩ := List.exists_cons_of_ne_nil hname.ne_nil
    have hc := hplain c List.mem_cons_self
    rw [List.cons_append, List.dropWhile_cons_of_neg (by simpa using hc)]
  have htake : (attrsOf ps).takeWhile (!isSpace ·) = [] := by
    cases ps with
    | nil => rfl
    | cons p ps => rfl
  have hdrop : (attrsOf ps).dropWhile (!isSpace ·) = attrsOf ps := by
    cases ps with
    | nil => rfl
    | cons p ps => rfl
  unfold Lua.parseTag
  simp only [hstart]
  rw [List.takeWhile_append_of_pos hplain, List.dropWhile_append_of_pos hplain, htake, hdrop,
    List.append_nil, if_neg hname.ne_nil, attrPairs_attrsOf hps (length_attrsOf ps),
    mapM_unescape]
  rfl

end Prosody.Xml
