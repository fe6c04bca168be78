import Prosody.Storage.Users

/-! # For which stores all users are listed -/

namespace Prosody.Datamanager

/-- What a path has below the data directory. -/
structure Plain (component : Bytes) : Prop extends
    Paths.Name (byte '/') (byte '.') component where
  nul : 0 ∉ component

/-- Names of files are right for a store of a host: they stay in the data directory, differ from
those for other arguments, and are read as they were written; and after every run exactly the users
are listed who have a file there. -/
structure Named (S : Setting) (host store : Bytes) : Prop where
  inside : ∀ username (ext : Ext), ∃ below,
    S.locate (getpath S.dataPath (some username) (some host) store ext.text) =
      some (S.dir ++ below) ∧ below ≠ [] ∧ ∀ c ∈ below, Plain c
  distinct : ∀ username (ext : Ext) username' host' store',
    getpath S.dataPath (some username) (some host) store ext.text =
        getpath S.dataPath (some username') (some host') store' ext.text →
      host = host' ∧ store = store' ∧ username = username'
  inverse : ∀ s, decode (encode s) = s
  listed : ∀ (ops : List Op) (typ : Ext),
    ∃ names, users S (Machine.run (step S) [] ops) host store typ = some names ∧ names.Nodup ∧
      ∀ u, u ∈ names ↔ HasFile S (Machine.run (step S) [] ops) u host store typ

/-- The store's directory is called as it is, and it is no host's. -/
def Usual (host store : Bytes) : Prop :=
  store ≠ [] ∧ (∀ c ∈ store, isStoreChar c) ∧
    (host ≠ [] ∨ byte '_' ∈ store ∧ store ≠ bytes "_global")

variable {S : Setting}

/-! ## Files stay inside -/

theorem named_plain {username host : Option Bytes} {datastore e : Bytes} (he : e ∈ exts) :
    ∀ c ∈ named (words username host datastore e), Plain c := by
  intro c hc
  obtain ⟨hmem, hne⟩ := List.mem_filter.mp hc
  have hw := words_word he hmem
  exact ⟨⟨by simpa using hne, hw.ne_dot, hw.ne_dots, hw.slash⟩, hw.nul⟩

theorem fileName_ne_nil (stem e : Bytes) : fileName stem e ≠ [] := by simp [fileName]

theorem named_concat (front : List Bytes) (stem e : Bytes) :
    named (front ++ [fileName stem e]) = named front ++ [fileName stem e] := by
  have hne : decide (fileName stem e ≠ []) = true := by simp [fileName_ne_nil]
  rw [named, List.filter_append, List.filter_singleton, hne]
  rfl

theorem words_some (username : Bytes) (host : Option Bytes) (datastore e : Bytes) :
    named (words (some username) host datastore e) =
      named [hostName host, storeEncode datastore] ++ [fileName (encode username) e] :=
  named_concat [hostName host, storeEncode datastore] (encode username) e

theorem words_none (host : Option Bytes) (datastore e : Bytes) :
    named (words none host datastore e) =
      named [hostName host] ++ [fileName (storeEncode datastore) e] :=
  named_concat [hostName host] (storeEncode datastore) e

/-! ## The last step of a path -/

/-- An entry that is none of the directories on the way to a file is the file. -/
theorem prefix_concat {α : Type*} {dir front : List α} {node last : α}
    (h : dir ++ [node] <+: front ++ [last]) (hnode : node ∉ front) : dir = front ∧ node = last := by
  obtain ⟨rest, hrest⟩ := h
  rcases List.eq_nil_or_concat rest with rfl | ⟨rest, x, rfl⟩
  · rw [List.append_nil] at hrest
    exact List.append_singleton_inj.mp hrest
  · rw [List.concat_eq_append, ← List.append_assoc] at hrest
    obtain ⟨rfl, -⟩ := List.append_singleton_inj.mp hrest
    exact absurd (by simp) hnode

theorem point_mem_fileName (stem e : Bytes) : byte '.' ∈ fileName stem e := by simp [fileName]

theorem fileName_inj {stem stem' e e' : Bytes} (he : byte '.' ∉ e) (he' : byte '.' ∉ e')
    (h : fileName stem e = fileName stem' e') : stem = stem' ∧ e = e' :=
  Separator.append_cons_inj_right he he' h

/-! ## Usual names -/

theorem point_of_named {ws : List Bytes} (h : ∀ w ∈ ws, ∀ d ∈ w, isPlain d) {node : Bytes}
    (hnode : byte '.' ∈ node) : node ∉ named ws := fun hmem =>
  point_of_plain (h node (List.mem_of_mem_filter hmem)) hnode

theorem forall_pair {host : Option Bytes} {datastore : Bytes} :
    ∀ w ∈ [hostName host, storeEncode datastore], ∀ d ∈ w, isPlain d := by
  intro w hw d hd
  rcases List.mem_cons.mp hw with rfl | hw
  · exact hostName_plain hd
  · rw [List.mem_singleton.mp hw] at hd
    exact storeEncode_plain hd

theorem forall_single {host : Option Bytes} : ∀ w ∈ [hostName host], ∀ d ∈ w, isPlain d := by
  intro w hw d hd
  rw [List.mem_singleton.mp hw] at hd
  exact hostName_plain hd

theorem underscore_of_encode (s : Bytes) : byte '_' ∉ encode s := by
  intro hmem
  rcases encode_chars hmem with h | h
  · exact absurd h (by decide)
  · exact absurd h (by decide)

variable {host : Bytes}

theorem hostName_ne_nil (h : host ≠ []) : hostName (some host) ≠ [] := by
  intro hnil
  have hencode : encode host = encode [] := hnil
  exact h (encode_inj hencode)

variable {store : Bytes}

/-- Where a usual store's files are, there are no other ones. -/
theorem Usual.of_prefix (h : Usual host store) {typ : Ext} {stem e : Bytes}
    (he : e ∈ exts) {username' host' : Option Bytes} {store' : Bytes}
    ( hprefix : named [hostName (some host), storeEncode store] ++ [fileName stem typ.text] <+:
      named (words username' host' store' e)) : ∃ u, username' = some u ∧ stem = encode u ∧
      named (words username' host' store' e) =
        named [hostName (some host), storeEncode store] ++ [fileName (encode u) typ.text] := by
  obtain ⟨hne, hchars, hhost⟩ := h
  have hself : storeEncode store = store := encodeBut_of_kept hchars
  have hstore : storeEncode store ≠ [] := by rwa [hself]
  have hpoint := point_mem_fileName stem typ.text
  cases username' with
  | none =>
    rw [words_none] at hprefix
    obtain ⟨hdir, -⟩ := prefix_concat hprefix (point_of_named forall_single hpoint)
    exfalso
    by_cases hnil : host = []
    · subst hnil
      obtain ⟨hunderscore, hglobal⟩ := hhost.resolve_left (not_not_intro rfl)
      have hleft : named [hostName (some []), storeEncode store] = [store] := by
        rw [hself]
        simp [named, hostName, encode, encodeBut, hne]
      have hmem : store ∈ named [hostName host'] := by
        rw [← hdir, hleft]
        exact List.mem_singleton_self store
      have heq : store = hostName host' := List.mem_singleton.mp (List.mem_of_mem_filter hmem)
      cases host' with
      | none => exact hglobal heq
      | some h' =>
        rw [heq] at hunderscore
        exact underscore_of_encode h' hunderscore
    · have hlength := congrArg List.length hdir
      have hleft : named [hostName (some host), storeEncode store] =
          [hostName (some host), storeEncode store] := by
        simp [named, hostName_ne_nil hnil, hstore]
      have hright : (named [hostName host']).length ≤ 1 := List.length_filter_le _ _
      rw [hleft] at hlength
      simp only [List.length_cons, List.length_nil] at hlength
      omega
  | some u =>
    rw [words_some] at hprefix ⊢
    obtain ⟨hdir, hname⟩ := prefix_concat hprefix (point_of_named forall_pair hpoint)
    obtain ⟨rfl, hext⟩ := fileName_inj (exts_spec typ.text_mem).2.2.2 (exts_spec he).2.2.2 hname
    exact ⟨u, rfl, rfl, by rw [← hdir, hext]⟩

theorem Usual.locate (h : Usual host store) (S : Setting) :
    S.locate (S.dataPath ++ byte '/' :: (encode host ++ byte '/' :: store)) =
      some (S.dir ++ named [hostName (some host), storeEncode store]) := by
  have hself : storeEncode store = store := encodeBut_of_kept h.2.1
  have hjoin : encode host ++ byte '/' :: store =
      List.intercalate [byte '/'] [hostName (some host), storeEncode store] := by
    rw [hself, List.intercalate_cons_cons, List.intercalate_singleton, List.append_assoc]
    rfl
  rw [hjoin, S.locate_words fun w hw => word_of_plain (forall_pair w hw)]

/-- What a usual store's directory has is what the module has written for its users. -/
theorem Usual.entries (h : Usual host store) {S : Setting} {disk : Disk}
    (hwritten : Written S disk) (typ : Ext) (stem : Bytes) : fileName stem typ.text ∈
        entries disk (S.dir ++ named [hostName (some host), storeEncode store]) ↔
      ∃ u, stem = encode u ∧ HasFile S disk u host store typ := by
  have hplace (u : Bytes) := S.locate_getpath (some u) (some host) store typ.text_mem
  rw [mem_entries]
  constructor
  · rintro ⟨file, hfile, hprefix⟩
    obtain ⟨username', host', store', e, he, rfl⟩ := hwritten file hfile
    rw [List.append_assoc] at hprefix
    obtain ⟨u, -, rfl, heq⟩ := h.of_prefix he ((List.prefix_append_right_inj S.dir).mp hprefix)
    refine ⟨u, rfl, _, hfile, ?_⟩
    rw [hplace u, words_some, heq]
  · rintro ⟨u, rfl, file, hfile, hlocate⟩
    rw [hplace u, words_some] at hlocate
    refine ⟨file, hfile, ?_⟩
    rw [← Option.some.inj hlocate, List.append_assoc]

/-- The directory of a usual store is no file. -/
theorem dir_notMem {S : Setting} {disk : Disk} (hwritten : Written S disk) (host store : Bytes) :
    S.dir ++ named [hostName (some host), storeEncode store] ∉ disk := by
  intro hmem
  obtain ⟨username', host', store', e, -, heq⟩ := hwritten _ hmem
  have hnamed := List.append_cancel_left heq
  have hlast : ∃ stem, fileName stem e ∈ named (words username' host' store' e) := by
    cases username' with
    | none => exact ⟨_, words_none host' store' e ▸ List.mem_append_right _ List.mem_cons_self⟩
    | some u => exact ⟨_, words_some u host' store' e ▸ List.mem_append_right _ List.mem_cons_self⟩
  obtain ⟨stem, hstem⟩ := hlast
  rw [← hnamed] at hstem
  exact point_of_named forall_pair (point_mem_fileName stem e) hstem

theorem Usual.listed (h : Usual host store) (S : Setting) (ops : List Op) (typ : Ext) :
    ∃ names, users S (Machine.run (step S) [] ops) host store typ = some names ∧ names.Nodup ∧
      ∀ u, u ∈ names ↔ HasFile S (Machine.run (step S) [] ops) u host store typ := by
  have hwritten := run_written S ops
  generalize Machine.run (step S) [] ops = disk at hwritten
  have hentries := h.entries hwritten typ
  rw [users_of_locate (h.locate S), if_neg (dir_notMem hwritten host store)]
  refine ⟨_, rfl, ?_, fun u => ?_⟩
  · have hnodup : (Datamanager.entries disk
        (S.dir ++ named [hostName (some host), storeEncode store])).Nodup := List.nodup_dedup _
    refine List.pairwise_filterMap.mpr (hnodup.imp_of_mem fun {a b} ha hb hne u hu v hv huv => ?_)
    obtain ⟨stem, rfl, rfl⟩ := userOf_eq_some.mp hu
    obtain ⟨stem', rfl, rfl⟩ := userOf_eq_some.mp hv
    obtain ⟨u, rfl, -⟩ := (hentries stem).mp ha
    obtain ⟨u', rfl, -⟩ := (hentries stem').mp hb
    rw [decode_encode, decode_encode] at huv
    exact hne (by rw [huv])
  · rw [mem_users]
    constructor
    · rintro ⟨stem, hstem, rfl⟩
      obtain ⟨u, rfl, hu⟩ := (hentries stem).mp hstem
      rwa [decode_encode]
    · intro hu
      exact ⟨encode u, (hentries _).mpr ⟨u, rfl, hu⟩, decode_encode u⟩

/-! ## Names that are not usual -/

/-- A store of the host itself whose name is not kept by the encoding of usernames. -/
def underscore : Bytes := bytes "_"

theorem run_store (S : Setting) (username host : Option Bytes) (datastore : Bytes) (ext : Ext) :
    Machine.run (step S) [] [.store username host datastore ext] =
      [S.dir ++ named (words username host datastore ext.text)] := by
  rw [Machine.run_cons, Machine.run_nil, step, put,
    S.locate_getpath username host datastore ext.text_mem]
  rfl

/-- In whose directory the file of a host's own store lies, that host has a user who does not
exist. -/
theorem not_listed_of_own {S : Setting} {host' : Option Bytes} {typ : Ext}
    (hdir : S.locate (S.dataPath ++ byte '/' :: (encode host ++ byte '/' :: store)) =
      some (S.dir ++ named [hostName host']))
    (hfile : named [hostName (some host), storeEncode store] = named [hostName host']) :
    ¬ ∃ names, users S (Machine.run (step S) [] [.store none host' underscore typ]) host store typ =
        some names ∧ names.Nodup ∧ ∀ u, u ∈ names ↔
          HasFile S (Machine.run (step S) [] [.store none host' underscore typ]) u host store
            typ := by
  rintro ⟨names, husers, -, hnames⟩
  have hself : storeEncode underscore = underscore := by decide
  rw [run_store, words_none, hself, users_of_locate hdir] at husers
  split_ifs at husers with hraise
  obtain rfl := Option.some.inj husers
  have hmem : underscore ∈ (entries [S.dir ++ (named [hostName host'] ++
      [fileName underscore typ.text])] (S.dir ++ named [hostName host'])).filterMap (userOf typ) :=
    mem_users.mpr ⟨underscore, mem_entries.mpr ⟨_, List.mem_singleton_self _, by
      rw [List.append_assoc]⟩, by decide⟩
  obtain ⟨file, hfile', hlocate⟩ := (hnames underscore).mp hmem
  rw [run_store, words_none, hself, List.mem_singleton] at hfile'
  rw [S.locate_getpath _ _ _ typ.text_mem, words_some, hfile, hfile'] at hlocate
  have hname := (List.append_singleton_inj.mp (List.append_cancel_left
    (Option.some.inj hlocate))).2
  have hstem := (fileName_inj (exts_spec typ.text_mem).2.2.2 (exts_spec typ.text_mem).2.2.2 hname).1
  exact absurd hstem (by decide)

def longName (n : ℕ) : Bytes := List.replicate n (byte 'a')

theorem length_decode (s : Bytes) : (decode s).length ≤ s.length := by
  induction s using decode.induct with
  | case1 c a b s hcode ih =>
    rw [decode, if_pos hcode]
    simp only [List.length_cons]
    omega
  | case2 c a b s hcode ih =>
    rw [decode, if_neg hcode]
    simp only [List.length_cons] at ih ⊢
    omega
  | case3 c s hshort ih =>
    rw [decode]
    · simp only [List.length_cons]
      omega
    · exact hshort
  | case4 => rfl

/-- Where the users of a store are looked for, however it is called. -/
theorem locate_store (S : Setting) (host store : Bytes) :
    S.locate (S.dataPath ++ byte '/' :: (encode host ++ byte '/' :: store)) =
      some (Paths.walk (byte '.') (S.dir ++ named [hostName (some host)])
        (Paths.components (byte '/') [] (cString store))) := by
  have hplain : ∀ w ∈ [hostName (some host)], Word w := fun w hw =>
    word_of_plain (forall_single w hw)
  have hnul : 0 ∉ S.dataPath ++ byte '/' :: encode host := by
    intro hmem
    rcases List.mem_append.mp hmem with hmem | hmem
    · exact S.nul hmem
    · rcases List.mem_cons.mp hmem with hmem | hmem
      · exact absurd hmem (by decide)
      · exact (hplain _ List.mem_cons_self).nul hmem
  have hhost := S.locate_words hplain
  rw [List.intercalate_singleton] at hhost
  change S.locate (S.dataPath ++ byte '/' :: encode host) = _ at hhost
  rw [Setting.locate, cString_of_notMem hnul] at hhost
  have hjoin : S.dataPath ++ byte '/' :: (encode host ++ byte '/' :: store) =
      (S.dataPath ++ byte '/' :: encode host) ++ byte '/' :: store := by simp
  have hcons : cString (byte '/' :: store) = byte '/' :: cString store := rfl
  rw [Setting.locate, hjoin, cString_append hnul, hcons, Paths.place_append hhost]

theorem named_pair (host : Bytes) (h : store ≠ []) :
    named [hostName (some host), storeEncode store] =
      named [hostName (some host)] ++ [storeEncode store] := by
  have hne : storeEncode store ≠ [] := fun hnil => h (storeEncode_inj (hnil : _ = storeEncode []))
  change List.filter _ ([hostName (some host)] ++ [storeEncode store]) = _
  rw [List.filter_append, ← named]
  simp [named, hne]

/-- The users of a store whose name is encoded are not found. -/
theorem not_listed_of_encoded (S : Setting) {c : UInt8} (hc : c ∈ store)
    (hencoded : ¬ isStoreChar c) (typ : Ext) :
    ∃ username, ¬ ∃ names, users S (Machine.run (step S) []
        [.store (some username) (some host) store typ]) host store typ = some names ∧
      names.Nodup ∧ ∀ u, u ∈ names ↔
        HasFile S (Machine.run (step S) [] [.store (some username) (some host) store typ]) u host
          store typ := by
  have hlonger : store.length < (storeEncode store).length := length_lt_encodeBut hc hencoded
  refine ⟨longName ((S.dir ++ named [hostName (some host), storeEncode store]).flatten.length + 1),
    ?_⟩
  rintro ⟨names, husers, -, hnames⟩
  rw [run_store, users_of_locate (locate_store S host store)] at husers
  split_ifs at husers with hraise
  obtain rfl := Option.some.inj husers
  obtain ⟨stem, hstem, hdecode⟩ := mem_users.mp ((hnames _).mpr ⟨_, by
    rw [run_store]
    exact List.mem_singleton_self _, S.locate_getpath _ _ _ typ.text_mem⟩)
  obtain ⟨file, hfile, hprefix⟩ := mem_entries.mp hstem
  rw [List.mem_singleton.mp hfile, words_some, ← List.append_assoc] at hprefix
  have hlength : (S.dir ++ named [hostName (some host), storeEncode store]).flatten.length <
      (fileName stem typ.text).length := by
    have hle := length_decode stem
    rw [hdecode, longName, List.length_replicate] at hle
    rw [fileName, List.length_append]
    omega
  obtain ⟨hdir, -⟩ := prefix_concat hprefix fun hmem =>
    absurd (List.sublist_flatten_of_mem hmem).length_le (Nat.not_le.mpr hlength)
  rw [named_pair host (List.ne_nil_of_mem hc), ← List.append_assoc] at hdir
  have hcomponent := Paths.length_components (Paths.mem_of_walk hdir)
  have hstring : (cString store).length ≤ store.length := (List.takeWhile_sublist _).length_le
  rw [List.length_nil] at hcomponent
  omega

theorem usual_of_named {S : Setting} (h : Named S host store) : Usual host store := by
  have hchars : ∀ c ∈ store, isStoreChar c := by
    by_contra hnot
    push Not at hnot
    obtain ⟨c, hc, hencoded⟩ := hnot
    obtain ⟨username, hfails⟩ := not_listed_of_encoded S hc hencoded .dat
    exact hfails (h.listed _ _)
  have hself : storeEncode store = store := encodeBut_of_kept hchars
  have hword : Word store := word_of_plain fun d hd => by
    rw [isPlain, hchars d hd, Bool.true_or]
  have hwords : ∀ w ∈ [hostName (some host), store], Word w := by
    intro w hw
    rcases List.mem_cons.mp hw with rfl | hw
    · exact word_of_plain fun d hd => hostName_plain hd
    · rwa [List.mem_singleton.mp hw]
  have hlocate := S.locate_words hwords
  rw [List.intercalate_cons_cons, List.intercalate_singleton, List.append_assoc] at hlocate
  refine ⟨?_, hchars, ?_⟩
  · rintro rfl
    have hdir : named [hostName (some host), []] = named [hostName (some host)] := by
      change List.filter _ ([hostName (some host)] ++ [[]]) = _
      rw [List.filter_append]
      exact List.append_nil _
    rw [hdir] at hlocate
    exact not_listed_of_own hlocate (hself.symm ▸ hdir) (h.listed _ .dat)
  · by_contra hnot
    push Not at hnot
    obtain ⟨rfl, hglobal⟩ := hnot
    obtain ⟨host', hhost'⟩ : ∃ host', hostName host' = store := by
      by_cases hunderscore : byte '_' ∈ store
      · exact ⟨none, (hglobal hunderscore).symm⟩
      · refine ⟨some store, encodeBut_of_kept fun c hc => ?_⟩
        have hkept := hchars c hc
        have hne : c ≠ byte '_' := fun heq => hunderscore (heq ▸ hc)
        simpa [isStoreChar, hne] using hkept
    have hdir : named [hostName (some []), store] = named [hostName host'] := by
      rw [hhost']
      rfl
    have hfile : named [hostName (some []), storeEncode store] = named [hostName host'] := by
      rw [hself, hdir]
    rw [hdir] at hlocate
    exact not_listed_of_own hlocate hfile (h.listed _ .dat)

/-- Names are right exactly for usual hosts and stores. -/
theorem named_iff (S : Setting) (host store : Bytes) : Named S host store ↔ Usual host store := by
  refine ⟨usual_of_named, fun h => ⟨fun username ext => ?_,
    fun username ext username' host' store' => getpath_inj, decode_encode, h.listed S⟩⟩
  refine ⟨_, S.locate_getpath _ _ _ ext.text_mem, ?_, named_plain ext.text_mem⟩
  rw [words_some]
  exact List.append_ne_nil_of_right_ne_nil _ (List.cons_ne_nil _ _)

/-! ## A store whose name has a dash -/

def demo : Setting := ⟨[], bytes "data", by decide, by decide⟩

def dashed : Disk :=
  Machine.run (step demo) []
    [.store (some (bytes "romeo")) (some (bytes "example.com")) (bytes "my-store") .dat]

theorem romeo_not_listed :
    ¬ ∃ names, users demo dashed (bytes "example.com") (bytes "my-store") .dat = some names ∧
      names.Nodup ∧ ∀ u, u ∈ names ↔
        HasFile demo dashed u (bytes "example.com") (bytes "my-store") .dat := by
  rintro ⟨names, husers, -, hnames⟩
  have hnone : users demo dashed (bytes "example.com") (bytes "my-store") .dat = some [] := by
    decide +kernel
  rw [hnone] at husers
  obtain rfl := Option.some.inj husers
  have hfile : HasFile demo dashed (bytes "romeo") (bytes "example.com") (bytes "my-store") .dat :=
    ⟨_, List.mem_cons_self, by decide +kernel⟩
  exact absurd ((hnames _).mpr hfile) List.not_mem_nil

end Prosody.Datamanager
