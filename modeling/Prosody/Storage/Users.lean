import Mathlib.Data.List.Dedup
import Prosody.Library.Runs
import Prosody.Storage.Datamanager

/-! # The users that have data in a store (`users` of `util/datamanager.lua`) -/

namespace Prosody.Datamanager

abbrev Place := List Bytes

def cString (s : Bytes) : Bytes := s.takeWhile (· ≠ 0)

/-- Where the process is, and what the data directory is called. -/
structure Setting where
  cwd : Place
  dataPath : Bytes
  ne_nil : dataPath ≠ []
  nul : 0 ∉ dataPath

namespace Setting

def dir (S : Setting) : Place :=
  (Paths.place (byte '/') (byte '.') S.cwd S.dataPath).getD []

def locate (S : Setting) (path : Bytes) : Option Place :=
  Paths.place (byte '/') (byte '.') S.cwd (cString path)

end Setting

abbrev Disk := List Place

/-- What is in a directory where a file has its place. -/
def entryOf (dir file : Place) : Option Bytes :=
  if dir <+: file then (file.drop dir.length).head? else none

/-- What is in a directory. -/
def entries (disk : Disk) (dir : Place) : List Bytes := (disk.filterMap (entryOf dir)).dedup

def isExtChar (c : UInt8) : Bool := c ∈ bytes "dalist"

/-- `^(.*)%.([dalist]+)$` -/
def nodePattern : List (Pattern.Item UInt8) :=
  [.group [.many fun _ => true], .one (· = byte '.'), .group [.one isExtChar, .many isExtChar],
    .stop]

/-- The two captures. -/
def matchNode (node : Bytes) : Option (Bytes × Bytes) :=
  (Pattern.anchored nodePattern node).bind fun f =>
    match f.captures with
    | [file, ext] => some (file, ext)
    | _ => none

/-- What all iterations return. To iterate over what is not a directory raises an error. A name with
dots in it is followed as though all directories on the way were there. -/
def users (S : Setting) (disk : Disk) (host store : Bytes) (typ : Ext) : Option (List Bytes) :=
  match S.locate (S.dataPath ++ byte '/' :: (encode host ++ byte '/' :: store)) with
  | none => some []
  | some dir =>
    if dir ∈ disk then none
    else
      some (([byte '.'] :: [byte '.', byte '.'] :: entries disk dir).filterMap fun node =>
        (matchNode node).bind fun m => if m.2 = typ.text then some (decode m.1) else none)

/-! ## What is written -/

/-- A file is written or removed, or its scratch file is left behind. -/
inductive Op
  | store (username host : Option Bytes) (datastore : Bytes) (ext : Ext)
  | scratch (username host : Option Bytes) (datastore : Bytes) (ext : Ext)
  | remove (username host : Option Bytes) (datastore : Bytes) (ext : Ext)

def put (S : Setting) (disk : Disk) (path : Bytes) : Disk :=
  match S.locate path with
  | none => disk
  | some file => disk.insert file

def step (S : Setting) (disk : Disk) : Op → Disk
  | .store username host datastore ext =>
    put S disk (getpath S.dataPath username host datastore ext.text)
  | .scratch username host datastore ext =>
    put S disk (getpath S.dataPath username host datastore ext.text ++ [byte '~'])
  | .remove username host datastore ext =>
    disk.filter fun file =>
      some file ≠ S.locate (getpath S.dataPath username host datastore ext.text)

def HasFile (S : Setting) (disk : Disk) (username host store : Bytes) (typ : Ext) : Prop :=
  ∃ file ∈ disk,
    S.locate (getpath S.dataPath (some username) (some host) store typ.text) = some file

/-! ## What file names are matched -/

theorem nodePattern_spec {node : Bytes} {f : Pattern.Found UInt8}
    (h : f ∈ Pattern.found nodePattern node) :
    ∃ file ext, f.captures = [file, ext] ∧ node = file ++ byte '.' :: ext ∧ ext ≠ [] ∧
      ∀ c ∈ ext, isExtChar c := by
  have hnode := Pattern.text_append_rest h
  obtain ⟨f1, h1, g1, k1, rfl⟩ := Pattern.mem_found_cons.mp h
  obtain ⟨f2, h2, g2, k2, rfl⟩ := Pattern.mem_found_cons.mp k1
  obtain ⟨f3, h3, g3, k3, rfl⟩ := Pattern.mem_found_cons.mp k2
  obtain rfl := Pattern.stop_spec (Pattern.mem_found_singleton.mp k3)
  obtain ⟨hfile, -⟩ := Pattern.group_many_captures h1
  obtain ⟨hpoint, c, hc, htext⟩ := Pattern.one_captures h2
  obtain ⟨g, hg, rfl⟩ := Pattern.mem_group.mp h3
  obtain ⟨g4, h4, g5, k5, rfl⟩ := Pattern.mem_found_cons.mp hg
  obtain ⟨hfirst, d, hd, hdtext⟩ := Pattern.one_captures h4
  obtain ⟨hothers, hclass⟩ := Pattern.many_captures (Pattern.mem_found_singleton.mp k5)
  have hc' : c = byte '.' := of_decide_eq_true hc
  refine ⟨f1.text, d :: g5.text, ?_, ?_, List.cons_ne_nil _ _,
    List.forall_mem_cons.mpr ⟨hd, hclass⟩⟩
  · simp only [Pattern.Found.append, Pattern.Found.capture, hfile, hpoint, hfirst, hothers, hdtext,
      List.nil_append, List.append_nil, List.cons_append]
  · rw [hnode]
    simp only [Pattern.Found.append, Pattern.Found.capture, htext, hdtext, hc', List.append_nil,
      List.nil_append, List.cons_append]

theorem exists_found {file ext : Bytes} (hne : ext ≠ []) (hext : ∀ c ∈ ext, isExtChar c) :
    ∃ f, f ∈ Pattern.found nodePattern (file ++ byte '.' :: ext) := by
  obtain ⟨d, others, rfl⟩ := List.exists_cons_of_ne_nil hne
  obtain ⟨hd, hothers⟩ := List.forall_mem_cons.mp hext
  have hone {p : UInt8 → Bool} {c : UInt8} (hc : p c) (s : Bytes) :
      { text := [c], rest := s } ∈ (Pattern.Item.one p).found (c :: s) := by
    rw [Pattern.Item.found, Pattern.one, if_pos hc]
    exact List.mem_singleton_self _
  have hmany {p : UInt8 → Bool} {s : Bytes} (hs : ∀ c ∈ s, p c) (t : Bytes) :
      { text := s, rest := t } ∈ Pattern.found [.many p] (s ++ t) :=
    Pattern.mem_found_singleton.mpr (by rw [Pattern.Item.found]; exact Pattern.mem_many hs t)
  have hall : { text := others, rest := [] } ∈ Pattern.found [.many isExtChar] others := by
    have := hmany hothers []
    rwa [List.append_nil] at this
  have hstop : { text := [], rest := [] } ∈ (Pattern.Item.stop : Pattern.Item UInt8).found [] := by
    rw [Pattern.Item.found]
    exact List.mem_singleton_self _
  exact ⟨_, Pattern.mem_found_cons.mpr ⟨_, Pattern.mem_group.mpr ⟨_, hmany (fun _ _ => rfl) _, rfl⟩,
    _, Pattern.mem_found_cons.mpr ⟨_, hone (decide_eq_true rfl) _,
    _, Pattern.mem_found_cons.mpr ⟨_, Pattern.mem_group.mpr ⟨_, Pattern.mem_found_cons.mpr
      ⟨_, hone hd _, _, hall, rfl⟩, rfl⟩,
    _, Pattern.mem_found_singleton.mpr hstop, rfl⟩, rfl⟩, rfl⟩⟩

/-- A name is taken apart at its last point. -/
theorem matchNode_eq {node file ext : Bytes} :
    matchNode node = some (file, ext) ↔
      node = file ++ byte '.' :: ext ∧ ext ≠ [] ∧ ∀ c ∈ ext, isExtChar c := by
  have hpoint {ext : Bytes} (hext : ∀ c ∈ ext, isExtChar c) : byte '.' ∉ ext := fun hmem =>
    absurd (hext _ hmem) (by decide)
  constructor
  · intro h
    obtain ⟨f, hf, hcaptures⟩ := Option.bind_eq_some_iff.mp h
    obtain ⟨file', ext', hf', hnode⟩ := nodePattern_spec (Pattern.anchored_mem hf)
    rw [hf'] at hcaptures
    obtain ⟨rfl, rfl⟩ := Prod.mk.inj (Option.some.inj hcaptures)
    exact hnode
  · rintro ⟨rfl, hne, hext⟩
    obtain ⟨f, hf⟩ := @exists_found file _ hne hext
    obtain ⟨g, hg⟩ : ∃ g, Pattern.anchored nodePattern (file ++ byte '.' :: ext) = some g :=
      Option.isSome_iff_exists.mp (List.isSome_head?.mpr (List.ne_nil_of_mem hf))
    obtain ⟨file', ext', hcaptures, hnode, -, hext'⟩ := nodePattern_spec (Pattern.anchored_mem hg)
    obtain ⟨rfl, rfl⟩ := Separator.append_cons_inj_right (hpoint hext) (hpoint hext') hnode
    rw [matchNode, hg, Option.bind_some, hcaptures]

/-! ## Places of files -/

def fileName (stem ext : Bytes) : Bytes := stem ++ byte '.' :: ext

/-- The words of a path behind the data directory. -/
def words (username host : Option Bytes) (datastore ext : Bytes) : List Bytes :=
  match username with
  | some username => [hostName host, storeEncode datastore, fileName (encode username) ext]
  | none => [hostName host, fileName (storeEncode datastore) ext]

/-- What of them names something. -/
def named (ws : List Bytes) : Place := ws.filter (· ≠ [])

theorem getpath_eq (dataPath : Bytes) (username host : Option Bytes) (datastore ext : Bytes) :
    getpath dataPath username host datastore ext =
      dataPath ++ byte '/' :: List.intercalate [byte '/'] (words username host datastore ext) := by
  cases username with
  | none => simp [getpath, words, fileName, List.intercalate_cons_cons]
  | some username => simp [getpath, words, fileName, List.intercalate_cons_cons]

/-- The ends of all files that are written. -/
def exts : List Bytes :=
  [Ext.dat.text, Ext.list.text, Ext.dat.text ++ [byte '~'], Ext.list.text ++ [byte '~']]

theorem Ext.text_mem (ext : Ext) : ext.text ∈ exts := by
  cases ext with
  | dat => exact List.mem_cons_self
  | list => exact List.mem_cons_of_mem _ List.mem_cons_self

theorem Ext.scratch_mem (ext : Ext) : ext.text ++ [byte '~'] ∈ exts := by
  cases ext with
  | dat => simp [exts]
  | list => simp [exts]

theorem exts_spec {e : Bytes} (h : e ∈ exts) :
    e ≠ [] ∧ byte '/' ∉ e ∧ 0 ∉ e ∧ byte '.' ∉ e := by
  revert e
  decide

/-- A word that may stand in a path. -/
structure Word (w : Bytes) : Prop where
  slash : byte '/' ∉ w
  nul : 0 ∉ w
  ne_dot : w ≠ [byte '.']
  ne_dots : w ≠ [byte '.', byte '.']

theorem word_of_plain {w : Bytes} (h : ∀ d ∈ w, isPlain d) : Word w := by
  have hdot : ¬ isPlain (byte '.') := by decide
  have hslash : ¬ isPlain (byte '/') := by decide
  have hnul : ¬ isPlain 0 := by decide
  refine ⟨fun hmem => hslash (h _ hmem), fun hmem => hnul (h _ hmem), ?_, ?_⟩
  · rintro rfl
    exact hdot (h _ List.mem_cons_self)
  · rintro rfl
    exact hdot (h _ List.mem_cons_self)

theorem point_of_plain {w : Bytes} (h : ∀ d ∈ w, isPlain d) : byte '.' ∉ w := fun hmem =>
  absurd (h _ hmem) (by decide)

theorem word_fileName {stem e : Bytes} (h : ∀ d ∈ stem, isPlain d) (he : e ∈ exts) :
    Word (fileName stem e) := by
  obtain ⟨hne, hslash, hnul, hpoint⟩ := exts_spec he
  have hstem := word_of_plain h
  have hstem' := point_of_plain h
  have hmem {c : UInt8} (hc : c ≠ byte '.') (hs : c ∉ stem) (he : c ∉ e) : c ∉ fileName stem e := by
    simp [fileName, hc, hs, he]
  refine ⟨hmem (by decide) hstem.slash hslash, hmem (by decide) hstem.nul hnul, ?_, ?_⟩
  · intro heq
    cases stem with
    | nil => exact hne (List.cons.inj heq).2
    | cons c stem => exact absurd (List.cons.inj heq).2 (by simp)
  · intro heq
    cases stem with
    | nil => exact hpoint ((List.cons.inj heq).2 ▸ List.mem_cons_self)
    | cons c stem => exact hstem' ((List.cons.inj heq).1 ▸ List.mem_cons_self)

theorem words_word {username host : Option Bytes} {datastore e w : Bytes} (he : e ∈ exts)
    (h : w ∈ words username host datastore e) : Word w := by
  have hhost := word_of_plain fun d (hd : d ∈ hostName host) => hostName_plain hd
  cases username with
  | none =>
    rcases List.mem_cons.mp h with rfl | h
    · exact hhost
    · rw [List.mem_singleton.mp h]
      exact word_fileName (fun d hd => storeEncode_plain hd) he
  | some username =>
    rcases List.mem_cons.mp h with rfl | h
    · exact hhost
    · rcases List.mem_cons.mp h with rfl | h
      · exact word_of_plain fun d hd => storeEncode_plain hd
      · rw [List.mem_singleton.mp h]
        exact word_fileName (fun d hd => encode_plain hd) he

theorem cString_append {s : Bytes} (h : 0 ∉ s) (t : Bytes) : cString (s ++ t) = s ++ cString t := by
  induction s with
  | nil => rfl
  | cons c s ih =>
    have hc : c ≠ 0 := fun hc => h (hc ▸ List.mem_cons_self)
    rw [List.cons_append, cString, List.takeWhile_cons_of_pos (by simpa using hc), ← cString,
      ih fun hmem => h (List.mem_cons_of_mem c hmem), List.cons_append]

theorem cString_of_notMem {s : Bytes} (h : 0 ∉ s) : cString s = s := by
  have happend := cString_append h []
  rw [List.append_nil] at happend
  exact happend.trans (List.append_nil s)

theorem mem_intercalate {ws : List Bytes} {c : UInt8} (h : c ∈ List.intercalate [byte '/'] ws) :
    c = byte '/' ∨ ∃ w ∈ ws, c ∈ w := by
  induction ws with
  | nil => exact absurd h List.not_mem_nil
  | cons w ws ih =>
    cases ws with
    | nil =>
      rw [List.intercalate_singleton] at h
      exact Or.inr ⟨w, List.mem_cons_self, h⟩
    | cons v ws =>
      rw [List.intercalate_cons_cons, List.append_assoc] at h
      rcases List.mem_append.mp h with h | h
      · exact Or.inr ⟨w, List.mem_cons_self, h⟩
      · rcases List.mem_append.mp h with h | h
        · exact Or.inl (List.mem_singleton.mp h)
        · rcases ih h with h | ⟨u, hu, hc⟩
          · exact Or.inl h
          · exact Or.inr ⟨u, List.mem_cons_of_mem w hu, hc⟩

namespace Setting

variable (S : Setting)

theorem place_dataPath : Paths.place (byte '/') (byte '.') S.cwd S.dataPath = some S.dir := by
  rw [dir, Paths.place, if_neg S.ne_nil, Option.getD_some]

theorem locate_append (s : Bytes) : S.locate (S.dataPath ++ byte '/' :: s) =
    some (Paths.walk (byte '.') S.dir (Paths.components (byte '/') [] (cString s))) := by
  have hcons : cString (byte '/' :: s) = byte '/' :: cString s := rfl
  rw [locate, cString_append S.nul, hcons, Paths.place_append S.place_dataPath]

theorem locate_words {ws : List Bytes} (h : ∀ w ∈ ws, Word w) :
    S.locate (S.dataPath ++ byte '/' :: List.intercalate [byte '/'] ws) =
      some (S.dir ++ named ws) := by
  have hnul : 0 ∉ List.intercalate [byte '/'] ws := by
    intro hmem
    rcases mem_intercalate hmem with hmem | ⟨w, hw, hmem⟩
    · exact absurd hmem (by decide)
    · exact (h w hw).nul hmem
  rw [locate_append, cString_of_notMem hnul,
    Paths.components_intercalate _ fun w hw => (h w hw).slash, Paths.walk_of_names, named]
  intro w hw
  obtain ⟨hmem, hne⟩ := List.mem_filter.mp hw
  exact ⟨by simpa using hne, (h w hmem).ne_dot, (h w hmem).ne_dots, (h w hmem).slash⟩

theorem locate_getpath (username host : Option Bytes) (datastore : Bytes) {e : Bytes}
    (he : e ∈ exts) : S.locate (getpath S.dataPath username host datastore e) =
      some (S.dir ++ named (words username host datastore e)) := by
  rw [getpath_eq, locate_words S fun w hw => words_word he hw]

end Setting

/-! ## What is on a disk -/

section

variable {S : Setting}

def Written (S : Setting) (disk : Disk) : Prop :=
  ∀ file ∈ disk, ∃ username host datastore, ∃ e ∈ exts,
    file = S.dir ++ named (words username host datastore e)

variable {disk : Disk}

theorem Written.put (h : Written S disk) (username host : Option Bytes)
    (datastore : Bytes) {e : Bytes} (he : e ∈ exts) :
    Written S (put S disk (getpath S.dataPath username host datastore e)) := by
  intro file hfile
  rw [Datamanager.put, S.locate_getpath username host datastore he] at hfile
  rcases List.mem_insert_iff.mp hfile with rfl | hfile
  · exact ⟨username, host, datastore, e, he, rfl⟩
  · exact h file hfile

theorem getpath_scratch (dataPath : Bytes) (username host : Option Bytes) (datastore e : Bytes) :
    getpath dataPath username host datastore e ++ [byte '~'] =
      getpath dataPath username host datastore (e ++ [byte '~']) := by
  cases username with
  | none => simp [getpath]
  | some username => simp [getpath]

theorem Written.step {disk : Disk} (h : Written S disk) (op : Op) : Written S (step S disk op) := by
  cases op with
  | store username host datastore ext => exact h.put username host datastore ext.text_mem
  | scratch username host datastore ext =>
    rw [Datamanager.step, getpath_scratch]
    exact h.put username host datastore ext.scratch_mem
  | remove username host datastore ext =>
    exact fun file hfile => h file (List.mem_of_mem_filter hfile)

theorem run_written (S : Setting) (ops : List Op) : Written S (Machine.run (step S) [] ops) :=
  Machine.run_invariant (fun _ op h => h.step op) (fun _ h => absurd h List.not_mem_nil) ops

/-! ## What a directory has -/

variable {dir : Place}

theorem entryOf_eq_some {file : Place} {node : Bytes} :
    entryOf dir file = some node ↔ dir ++ [node] <+: file := by
  unfold entryOf
  constructor
  · intro h
    split_ifs at h with hprefix
    obtain ⟨rest, rfl⟩ := hprefix
    rw [List.drop_left] at h
    obtain ⟨rest, rfl⟩ := List.head?_eq_some_iff.mp h
    exact ⟨rest, by simp⟩
  · rintro ⟨rest, rfl⟩
    rw [List.append_assoc, if_pos (List.prefix_append _ _), List.drop_left]
    rfl

theorem mem_entries {node : Bytes} :
    node ∈ entries disk dir ↔ ∃ file ∈ disk, dir ++ [node] <+: file := by
  rw [entries, List.mem_dedup, List.mem_filterMap]
  simp only [entryOf_eq_some]

theorem Ext.text_chars (ext : Ext) : ext.text ≠ [] ∧ ∀ c ∈ ext.text, isExtChar c := by
  cases ext with
  | dat => decide +kernel
  | list => decide +kernel

def userOf (typ : Ext) (node : Bytes) : Option Bytes :=
  (matchNode node).bind fun m => if m.2 = typ.text then some (decode m.1) else none

theorem userOf_eq_some {typ : Ext} {node u : Bytes} :
    userOf typ node = some u ↔ ∃ stem, node = fileName stem typ.text ∧ decode stem = u := by
  constructor
  · intro h
    obtain ⟨⟨stem, ext⟩, hm, hu⟩ := Option.bind_eq_some_iff.mp h
    obtain ⟨rfl, -, -⟩ := matchNode_eq.mp hm
    split_ifs at hu with hext
    exact ⟨stem, by rw [fileName, ← hext], Option.some.inj hu⟩
  · rintro ⟨stem, rfl, rfl⟩
    have hm : matchNode (stem ++ byte '.' :: typ.text) = some (stem, typ.text) :=
      matchNode_eq.mpr ⟨rfl, typ.text_chars.1, typ.text_chars.2⟩
    rw [userOf, fileName, hm, Option.bind_some, if_pos rfl]

/-- The entries with points only are no users. -/
theorem users_of_locate {host store : Bytes} {typ : Ext}
    (hdir : S.locate (S.dataPath ++ byte '/' :: (encode host ++ byte '/' :: store)) = some dir) :
    users S disk host store typ =
      if dir ∈ disk then none else some ((entries disk dir).filterMap (userOf typ)) := by
  have hdot : userOf typ [byte '.'] = none := by cases typ <;> decide
  have hdots : userOf typ [byte '.', byte '.'] = none := by cases typ <;> decide
  rw [users, hdir]
  change (if dir ∈ disk then none else some (List.filterMap (userOf typ) _)) = _
  rw [List.filterMap_cons_none hdot, List.filterMap_cons_none hdots]

theorem mem_users {typ : Ext} {u : Bytes} : u ∈ (entries disk dir).filterMap (userOf typ) ↔
      ∃ stem, fileName stem typ.text ∈ entries disk dir ∧ decode stem = u := by
  rw [List.mem_filterMap]
  simp only [userOf_eq_some]
  constructor
  · rintro ⟨node, hnode, stem, rfl, hu⟩
    exact ⟨stem, hnode, hu⟩
  · rintro ⟨stem, hnode, hu⟩
    exact ⟨_, hnode, stem, rfl, hu⟩

end

end Prosody.Datamanager
