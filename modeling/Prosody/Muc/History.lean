import Mathlib.Algebra.Order.Archimedean.Basic
import Mathlib.Algebra.Order.Field.Rat
import Mathlib.Data.Char
import Mathlib.Data.List.Lex
import Mathlib.Data.Rat.Floor
import Mathlib.Order.WithBot
import Prosody.Library.Runs
import Prosody.Library.Suffixes
import Prosody.Xml.Stanza

/-! # History of a room (`plugins/muc/history.lib.lua`) -/

namespace Prosody.MucHistory

open Xml (Node Text)

/-! ## Numbers -/

/-- The numbers of Lua without `nan`. -/
abbrev Num := WithBot (WithTop ℚ)

def Num.ofRat (q : ℚ) : Num := ((q : WithTop ℚ) : Num)

def Num.ofNat (n : ℕ) : Num := .ofRat n

/-- `math.huge`. -/
def Num.huge : Num := ((⊤ : WithTop ℚ) : Num)

/-- `now - seconds`. -/
def Num.before (now : ℚ) : Num → Num
  | none => .huge
  | some none => ⊥
  | some (some seconds) => .ofRat (now - seconds)

/-- How many of `n` a limit allows, where a negative limit allows none. -/
def Num.allows (n : ℕ) : Num → ℕ
  | none => 0
  | some none => n
  | some (some limit) => min n ⌊limit⌋₊

/-! ## The configuration -/

structure Config where
  host : Text
  maxHistoryLength : Num
  pairs : KeyOrder Text
  tonumber : Text → Option Num
  parse : Text → Option Num

structure Entry where
  stanza : Node
  timestamp : ℚ
  chars : Option ℕ

structure Room where
  historyLength : Option Num
  defaultHistoryMessages : Option Num
  history : List Entry
  /-- An addition to the history does not come to an end. -/
  hung : Bool

def Room.new : Room := ⟨none, none, [], false⟩

def defaultHistoryLength : Num := .ofNat 20

def getHistorylength (config : Config) (room : Room) : Num :=
  min (room.historyLength.getD defaultHistoryLength) config.maxHistoryLength

/-- The setting is left alone where its value is no number. -/
def setHistorylength (config : Config) (value : Option Text) (room : Room) : Room :=
  match value with
  | none => { room with historyLength := none }
  | some value =>
    match config.tonumber value with
    | none => room
    | some length =>
      { room with
        historyLength := if length = defaultHistoryLength then none else some length }

def getDefaulthistorymessages (room : Room) : Num :=
  room.defaultHistoryMessages.getD defaultHistoryLength

def setDefaulthistorymessages (config : Config) (value : Option Text) (room : Room) : Room :=
  let number := min ((value.bind config.tonumber).getD defaultHistoryLength)
    (room.historyLength.getD defaultHistoryLength)
  { room with
    defaultHistoryMessages := if number = defaultHistoryLength then none else some number }

/-! ## Adding to the history -/

def setTo (recipient : Text) : Node → Node
  | .text s => .text s
  | .elem name attr children => .elem name (attr.set "to".toList (some recipient)) children

def addChild (child : Node) : Node → Node
  | .text s => .text s
  | .elem name attr children => .elem name attr (children ++ [child])

def delayed (name xmlns : Text) (config : Config) (stamp : Text) : Node :=
  .elem name
    (((((∅ : Table Text Text).set "xmlns".toList (some xmlns)).set
      "from".toList (some config.host)).set "stamp".toList (some stamp))) []

/-- A message with the time, and how `datetime` writes it. -/
structure Historic where
  stanza : Node
  ts : ℚ
  stamp : Text
  legacy : Text

def Historic.entry (config : Config) (message : Historic) : Entry where
  stanza := addChild (delayed "x".toList "jabber:x:delay".toList config message.legacy)
    (addChild (delayed "delay".toList "urn:xmpp:delay".toList config message.stamp)
      (setTo [] message.stanza))
  timestamp := message.ts
  chars := none

/-- So many rounds of the loop that removes the oldest messages, if it ends within them. -/
def trim (length : Num) : ℕ → List Entry → Option (List Entry)
  | 0, _ => none
  | n + 1, history =>
    if length < .ofNat history.length then trim length n history.tail else some history

/-- With a length that is not negative every round but the last removes a message. -/
def addHistory (config : Config) (message : Historic) (room : Room) : Room :=
  let history := room.history ++ [message.entry config]
  match trim (getHistorylength config room) (history.length + 1) history with
  | some history => { room with history := history }
  | none => { room with hung := true }

/-! ## Sending the history -/

/-- The attributes of `<history/>`. -/
structure HistoryTag where
  maxchars : Option Text
  maxstanzas : Option Text
  since : Option Text
  seconds : Option Text

structure Limits where
  maxchars : Option Num
  maxstanzas : Option Num
  since : Option Num

def parseHistory (config : Config) (now : ℚ) : Option HistoryTag → Limits
  | none => ⟨none, none, none⟩
  | some tag =>
    let since := tag.since.bind config.parse
    let seconds := (tag.seconds.bind config.tonumber).map (Num.before now)
    { maxchars := tag.maxchars.bind config.tonumber
      maxstanzas := tag.maxstanzas.bind config.tonumber
      since :=
        match seconds, since with
        | some seconds, some since => some (max since seconds)
        | some seconds, none => some seconds
        | none, since => since }

/-- `send_history`, up to the event. -/
def limits (config : Config) (now : ℚ) (tag : Option HistoryTag) (room : Room) : Limits :=
  let parsed := parseHistory config now tag
  if parsed.maxchars.isNone ∧ parsed.maxstanzas.isNone ∧ parsed.since.isNone then
    { parsed with maxstanzas := some (getDefaulthistorymessages room) }
  else parsed

def measure (config : Config) (entry : Entry) : Entry :=
  match entry.chars with
  | some _ => entry
  | none =>
    let stanza := setTo [] entry.stanza
    { entry with stanza := stanza, chars := some (stanza.tostring config.pairs).length }

def exceeds (limit : Option Num) (n : ℕ) : Bool := limit.any fun limit => limit < .ofNat n

def early (since : Option Num) (entry : Entry) : Bool :=
  since.any fun since => .ofRat entry.timestamp < since

/-- The length of a message is only needed where the characters count. -/
def look (config : Config) (lims : Limits) (entry : Entry) : Entry :=
  if lims.maxchars.isSome then measure config entry else entry

def charge (lims : Limits) (recipient : Text) (entry : Entry) (charcount : ℕ) : ℕ :=
  if lims.maxchars.isSome then charcount + entry.chars.getD 0 + recipient.length else charcount

/-- The loop over the entries from the newest one on: how many are sent, and the entries. -/
def count (config : Config) (lims : Limits) (recipient : Text) :
    List Entry → ℕ → ℕ → ℕ × List Entry
  | [], n, _ => (n, [])
  | entry :: older, n, charcount =>
    let entry := look config lims entry
    let charcount := charge lims recipient entry charcount
    if exceeds lims.maxchars charcount ∨ early lims.since entry ∨
        exceeds lims.maxstanzas (n + 1) then
      (n, entry :: older)
    else
      let r := count config lims recipient older (n + 1) charcount
      (r.1, entry :: r.2)

def address (recipient : Text) (entry : Entry) : Entry :=
  { entry with stanza := setTo recipient entry.stanza }

/-- What is sent to an occupant who joins, and the history with the messages that were sent, which
are addressed in place. -/
def getHistory (config : Config) (lims : Limits) (recipient : Text) (history : List Entry) :
    List Node × List Entry :=
  let lims := { lims with maxstanzas := some (lims.maxstanzas.getD (.ofNat history.length)) }
  let counted := count config lims recipient history.reverse 0 0
  let history := counted.2.reverse
  let sent := (history.drop (history.length - counted.1)).map (address recipient)
  (sent.map Entry.stanza, history.take (history.length - counted.1) ++ sent)

/-! ## The room -/

inductive Input
  | historylength (value : Option Text)
  | defaulthistorymessages (value : Option Text)
  | add (message : Historic)
  | join (recipient : Text) (tag : Option HistoryTag) (now : ℚ)

def step (config : Config) (room : Room) : Input → Room
  | .historylength value => if room.hung then room else setHistorylength config value room
  | .defaulthistorymessages value =>
    if room.hung then room else setDefaulthistorymessages config value room
  | .add message => if room.hung then room else addHistory config message room
  | .join recipient tag now =>
    if room.hung then room
    else
      { room with
        history := (getHistory config (limits config now tag room) recipient room.history).2 }

/-- The length of a message as it is stored, with the address of the recipient. -/
def size (config : Config) (recipient : Text) (entry : Entry) : ℕ :=
  ((setTo [] entry.stanza).tostring config.pairs).length + recipient.length

/-- Some messages satisfy all limits that are there. -/
structure Fits (config : Config) (lims : Limits) (recipient : Text) (entries : List Entry) :
    Prop where
  maxstanzas : ∀ limit, lims.maxstanzas = some limit → Num.ofNat entries.length ≤ limit
  since : ∀ limit, lims.since = some limit →
    ∀ entry ∈ entries, limit ≤ Num.ofRat entry.timestamp
  maxchars : ∀ limit, lims.maxchars = some limit →
    Num.ofNat (entries.map (size config recipient)).sum ≤ limit

/-- An addition ends and leaves as many of the latest messages as the length allows. An occupant
who joins is sent the longest suffix of the history that satisfies the limits. -/
def Right (config : Config) (room : Room) : Input → Prop
  | .add message =>
    let history := room.history ++ [message.entry config]
    let length := getHistorylength config room
    let latest := history.drop (history.length - length.allows history.length)
    (∃ n, trim length n history = some latest) ∧
      (step config room (.add message)).history = latest
  | .join recipient tag now =>
    let lims := limits config now tag room
    ∃ kept, LongestSuffix (Fits config lims recipient) room.history kept ∧
      (getHistory config lims recipient room.history).1 =
        kept.map fun entry => setTo recipient entry.stanza
  | _ => True

/-- The length is not negative when a message is added. -/
def Sensible (config : Config) (room : Room) : Input → Prop
  | .add _ => 0 ≤ getHistorylength config room
  | _ => True

/-! ## Trimming -/

section Trimming

variable {length : Num} {n : ℕ} {history : List Entry}

theorem allows_le : length.allows n ≤ n := by
  obtain _ | _ | limit := length
  · exact Nat.zero_le n
  · exact le_refl n
  · exact min_le_left n _

theorem ofNat_nonneg : 0 ≤ Num.ofNat n := by
  have hcast : (0 : ℚ) ≤ n := Nat.cast_nonneg n
  exact WithBot.coe_le_coe.mpr (WithTop.coe_le_coe.mpr hcast)

theorem lt_ofNat_iff (h : 0 ≤ length) : length < .ofNat n ↔ length.allows n < n := by
  obtain _ | _ | limit := length
  · exact absurd h (WithBot.bot_lt_coe 0).not_ge
  · refine iff_of_false (fun hlt => ?_) (lt_irrefl n)
    exact absurd (WithBot.coe_lt_coe.mp hlt) not_top_lt
  · have hlimit : 0 ≤ limit := WithTop.coe_le_coe.mp (WithBot.coe_le_coe.mp h)
    change _ ↔ min n ⌊limit⌋₊ < n
    rw [min_lt_iff, or_iff_right (lt_irrefl n), Nat.floor_lt hlimit]
    exact WithBot.coe_lt_coe.trans WithTop.coe_lt_coe

theorem allows_succ (h : 0 ≤ length) (hlt : length < .ofNat (n + 1)) :
    length.allows (n + 1) = length.allows n := by
  have hless := (lt_ofNat_iff h).mp hlt
  obtain _ | _ | limit := length
  · rfl
  · exact absurd hless (lt_irrefl (n + 1))
  · change min (n + 1) ⌊limit⌋₊ < n + 1 at hless
    change min (n + 1) ⌊limit⌋₊ = min n ⌊limit⌋₊
    omega

theorem trim_negative (h : length < 0) : trim length n history = none := by
  induction n generalizing history with
  | zero => rfl
  | succ n ih =>
    rw [trim, if_pos (h.trans_le ofNat_nonneg)]
    exact ih

theorem trim_spec (h : 0 ≤ length) (hn : history.length ≤ n) :
    trim length (n + 1) history =
      some (history.drop (history.length - length.allows history.length)) := by
  induction n generalizing history with
  | zero =>
    obtain rfl := List.length_eq_zero_iff.mp (Nat.le_zero.mp hn)
    have hzero : ¬ length < Num.ofNat 0 := not_lt.mpr h
    rw [trim, List.length_nil, if_neg hzero, List.drop_nil]
  | succ n ih =>
    rw [trim]
    split_ifs with hlt
    · cases history with
      | nil => exact absurd hlt (not_lt.mpr h)
      | cons entry history =>
        have hle := @allows_le length history.length
        have hdrop : history.length + 1 - length.allows history.length =
            history.length - length.allows history.length + 1 := by omega
        rw [List.length_cons] at hlt ⊢
        rw [List.tail_cons, ih (Nat.le_of_succ_le_succ hn), allows_succ h hlt, hdrop,
          List.drop_succ_cons]
    · have hall : length.allows history.length = history.length :=
        le_antisymm allows_le (not_lt.mp fun hless => hlt ((lt_ofNat_iff h).mpr hless))
      rw [hall, Nat.sub_self, List.drop_zero]

end Trimming

/-! ## Measuring -/

section Measuring

variable {config : Config} {lims : Limits} {recipient : Text} {entry : Entry}
  {kept entries : List Entry} {n charcount : ℕ}

/-- The length that is cached is that of the message. -/
def Measured (config : Config) (entry : Entry) : Prop :=
  ∀ c, entry.chars = some c → c = ((setTo [] entry.stanza).tostring config.pairs).length

theorem setTo_setTo (a b : Text) (node : Node) : setTo a (setTo b node) = setTo a node := by
  cases node with
  | text s => rfl
  | elem name attr children => rw [setTo, setTo, setTo, Table.set_set]

theorem measured_address (h : Measured config entry) :
    Measured config (address recipient entry) := by
  intro c hc
  change c = ((setTo [] (setTo recipient entry.stanza)).tostring config.pairs).length
  rw [setTo_setTo]
  exact h c hc

theorem measure_spec (h : Measured config entry) :
    Measured config (measure config entry) ∧
      (measure config entry).chars = some ((setTo [] entry.stanza).tostring config.pairs).length ∧
      setTo recipient (measure config entry).stanza = setTo recipient entry.stanza ∧
      (measure config entry).timestamp = entry.timestamp := by
  unfold measure
  cases hchars : entry.chars with
  | some c =>
    have hc := h c hchars
    exact ⟨h, hchars.trans (congrArg some hc), rfl, rfl⟩
  | none =>
    refine ⟨?_, rfl, setTo_setTo recipient [] entry.stanza, rfl⟩
    intro c hc
    obtain rfl := Option.some.inj hc
    change _ = ((setTo [] (setTo [] entry.stanza)).tostring config.pairs).length
    rw [setTo_setTo]

theorem exceeds_iff {limit : Option Num} :
    ¬ exceeds limit n = true ↔ ∀ l, limit = some l → Num.ofNat n ≤ l := by
  cases limit with
  | none => simp [exceeds]
  | some limit => simp [exceeds]

theorem early_iff {since : Option Num} :
    ¬ early since entry = true ↔ ∀ l, since = some l → l ≤ Num.ofRat entry.timestamp := by
  cases since with
  | none => simp [early]
  | some since => simp [early]

theorem ofNat_le_ofNat {m : ℕ} (h : m ≤ n) : Num.ofNat m ≤ Num.ofNat n := by
  have hcast : (m : ℚ) ≤ n := Nat.cast_le.mpr h
  exact WithBot.coe_le_coe.mpr (WithTop.coe_le_coe.mpr hcast)

theorem fits_closed : SuffixClosed (Fits config lims recipient) := by
  intro entry entries _ h
  refine ⟨fun limit hlimit => ?_, fun limit hlimit e he => ?_, fun limit hlimit => ?_⟩
  · exact (ofNat_le_ofNat (Nat.le_succ _)).trans (h.maxstanzas limit hlimit)
  · exact h.since limit hlimit e (List.mem_cons_of_mem entry he)
  · refine (ofNat_le_ofNat ?_).trans (h.maxchars limit hlimit)
    rw [List.map_cons, List.sum_cons]
    exact Nat.le_add_left _ _

theorem fits_cons_iff (hkept : kept ≠ [] → Fits config lims recipient kept)
    (hchars : lims.maxchars.isSome = true →
      charcount = ((entry :: kept).map (size config recipient)).sum) :
    Fits config lims recipient (entry :: kept) ↔
      ¬ (exceeds lims.maxchars charcount = true ∨ early lims.since entry = true ∨
        exceeds lims.maxstanzas (kept.length + 1) = true) := by
  have hmaxchars : ¬ exceeds lims.maxchars charcount = true ↔ ∀ l, lims.maxchars = some l →
      Num.ofNat ((entry :: kept).map (size config recipient)).sum ≤ l := by
    rw [exceeds_iff]
    refine forall_congr' fun l => forall_congr' fun hl => ?_
    rw [hchars (by rw [hl]; rfl)]
  rw [not_or, not_or, hmaxchars, early_iff, exceeds_iff]
  constructor
  · intro h
    exact ⟨h.maxchars, fun l hl => h.since l hl entry List.mem_cons_self, h.maxstanzas⟩
  · rintro ⟨hchars, hsince, hstanzas⟩
    refine ⟨hstanzas, fun l hl e he => ?_, hchars⟩
    obtain rfl | he := List.mem_cons.mp he
    · exact hsince l hl
    · exact (hkept (List.ne_nil_of_mem he)).since l hl e he

/-- The loop goes on from the messages that are kept, with the older ones before it. What it does to
the entries shows in no message that is sent. -/
theorem count_spec {older : List Entry} (holder : ∀ e ∈ older, Measured config e)
    (hkept : kept ≠ [] → Fits config lims recipient kept)
    (hchars : lims.maxchars.isSome = true →
      charcount = (kept.map (size config recipient)).sum) :
    (∃ sent, LongestSuffix (Fits config lims recipient) (older.reverse ++ kept) sent ∧
        (count config lims recipient older kept.length charcount).1 = sent.length) ∧
      (count config lims recipient older kept.length charcount).2.map
          (fun e => setTo recipient e.stanza) = older.map (fun e => setTo recipient e.stanza) ∧
      ∀ e ∈ (count config lims recipient older kept.length charcount).2, Measured config e := by
  induction older generalizing kept charcount with
  | nil => exact ⟨⟨kept, .all hkept, rfl⟩, rfl, holder⟩
  | cons entry older ih =>
    obtain ⟨hentry, holder⟩ := List.forall_mem_cons.mp holder
    obtain ⟨hmeasured, hlength, hstanza, htime⟩ := @measure_spec config recipient entry hentry
    have hsame : Measured config (look config lims entry) ∧
        setTo recipient (look config lims entry).stanza = setTo recipient entry.stanza ∧
          (look config lims entry).timestamp = entry.timestamp := by
      unfold look
      split_ifs
      · exact ⟨hmeasured, hstanza, htime⟩
      · exact ⟨hentry, rfl, rfl⟩
    have hcount : lims.maxchars.isSome = true →
        charge lims recipient (look config lims entry) charcount =
          ((entry :: kept).map (size config recipient)).sum := by
      intro hsome
      rw [charge, if_pos hsome, look, if_pos hsome, hlength, hchars hsome, List.map_cons,
        List.sum_cons, size, Option.getD_some]
      omega
    have hfits := @fits_cons_iff config lims recipient entry kept _ hkept hcount
    have hearly : early lims.since (look config lims entry) = early lims.since entry := by
      rw [early, early, hsame.2.2]
    unfold count
    simp only [hearly]
    split_ifs with hstop
    · refine ⟨⟨kept, ?_, rfl⟩, ?_, ?_⟩
      · rw [List.reverse_cons, List.append_assoc, List.singleton_append]
        exact .stop fits_closed hkept fun h => hfits.mp h hstop
      · rw [List.map_cons, List.map_cons, hsame.2.1]
      · exact List.forall_mem_cons.mpr ⟨hsame.1, holder⟩
    · obtain ⟨⟨sent, hsent, hlen⟩, hmap, hall⟩ :=
        @ih (entry :: kept) _ holder (fun _ => hfits.mpr hstop) hcount
      refine ⟨⟨sent, ?_, hlen⟩, ?_, ?_⟩
      · rw [List.reverse_cons, List.append_assoc, List.singleton_append]
        exact hsent
      · rw [List.map_cons, List.map_cons, hsame.2.1]
        exact congrArg _ hmap
      · exact List.forall_mem_cons.mpr ⟨hsame.1, hall⟩

theorem fits_of_suffix {history : List Entry} (hsuffix : entries <:+ history) :
    Fits config { lims with maxstanzas := some (lims.maxstanzas.getD (.ofNat history.length)) }
        recipient entries ↔
      Fits config lims recipient entries := by
  refine ⟨fun h => ⟨fun l hl => ?_, h.since, h.maxchars⟩,
    fun h => ⟨fun l hl => ?_, h.since, h.maxchars⟩⟩
  · exact h.maxstanzas l (by rw [hl]; rfl)
  · obtain rfl := Option.some.inj hl
    cases hmax : lims.maxstanzas with
    | none => exact ofNat_le_ofNat hsuffix.length_le
    | some limit => exact h.maxstanzas limit hmax

/-- What is sent is the longest suffix that satisfies the limits, and what stays is measured. -/
theorem getHistory_spec {history : List Entry} (h : ∀ e ∈ history, Measured config e) :
    (∃ kept, LongestSuffix (Fits config lims recipient) history kept ∧
        (getHistory config lims recipient history).1 =
          kept.map fun entry => setTo recipient entry.stanza) ∧
      ∀ e ∈ (getHistory config lims recipient history).2, Measured config e := by
  have hreverse : ∀ e ∈ history.reverse, Measured config e :=
    fun e he => h e (List.mem_reverse.mp he)
  obtain ⟨⟨kept, hkept, hlength⟩, hmap, hmeasured⟩ := @count_spec config
    { lims with maxstanzas := some (lims.maxstanzas.getD (.ofNat history.length)) }
    recipient [] 0 history.reverse hreverse (fun hne => absurd rfl hne) (fun _ => rfl)
  rw [List.reverse_reverse, List.append_nil] at hkept
  unfold getHistory
  simp only
  rw [List.length_nil] at hlength hmap hmeasured
  generalize hcounted : count config
    { lims with maxstanzas := some (lims.maxstanzas.getD (.ofNat history.length)) }
    recipient history.reverse 0 0 = counted at hlength hmap hmeasured
  have hsame : counted.2.reverse.map (fun e => setTo recipient e.stanza) =
      history.map fun e => setTo recipient e.stanza := by
    rw [List.map_reverse, hmap, ← List.map_reverse, List.reverse_reverse]
  have hlen : counted.2.reverse.length = history.length := by
    have := congrArg List.length hsame
    rwa [List.length_map, List.length_map] at this
  have hall : ∀ e ∈ counted.2.reverse, Measured config e :=
    fun e he => hmeasured e (List.mem_reverse.mp he)
  refine ⟨⟨kept, hkept.congr fun ys hys => fits_of_suffix hys, ?_⟩, fun e he => ?_⟩
  · have hdrop := List.suffix_iff_eq_drop.mp hkept.suffix
    rw [List.map_map]
    change (List.drop _ counted.2.reverse).map (fun e => setTo recipient e.stanza) = _
    rw [List.map_drop, hsame, hlen, hlength, ← List.map_drop, ← hdrop]
  · obtain he | he := List.mem_append.mp he
    · exact hall e (List.mem_of_mem_take he)
    · obtain ⟨e', he', rfl⟩ := List.mem_map.mp he
      exact measured_address (hall e' (List.mem_of_mem_drop he'))

end Measuring

/-! ## Runs -/

section Runs

variable {config : Config} {room : Room}

structure Inv (config : Config) (room : Room) : Prop where
  running : room.hung = false
  measured : ∀ e ∈ room.history, Measured config e

theorem inv_new : Inv config Room.new := ⟨rfl, nofun⟩

theorem add_spec (message : Historic) (h : 0 ≤ getHistorylength config room) :
    ∀ n, room.history.length + 1 ≤ n →
      trim (getHistorylength config room) (n + 1) (room.history ++ [message.entry config]) =
        some ((room.history ++ [message.entry config]).drop
          ((room.history ++ [message.entry config]).length -
            (getHistorylength config room).allows
              (room.history ++ [message.entry config]).length)) := by
  intro n hn
  exact trim_spec h (by rwa [List.length_append])

theorem inv_step (room : Room) (a : Input) (h : Inv config room) (hok : Sensible config room a) :
    Inv config (step config room a) := by
  have hrunning := h.running
  cases a with
  | historylength value =>
    simp only [step, hrunning, Bool.false_eq_true, if_false]
    unfold setHistorylength
    cases value with
    | none => exact ⟨hrunning, h.measured⟩
    | some value =>
      cases hnumber : config.tonumber value with
      | none => simpa only [hnumber] using h
      | some length =>
        simp only [hnumber]
        exact ⟨hrunning, h.measured⟩
  | defaulthistorymessages value =>
    simp only [step, hrunning, Bool.false_eq_true, if_false]
    exact ⟨hrunning, h.measured⟩
  | join recipient tag now =>
    simp only [step, hrunning, Bool.false_eq_true, if_false]
    exact ⟨rfl, (getHistory_spec h.measured).2⟩
  | add message =>
    have hadded := add_spec message hok (room.history ++ [message.entry config]).length
      (by rw [List.length_append, List.length_singleton])
    simp only [step, hrunning, Bool.false_eq_true, if_false, addHistory, hadded]
    refine ⟨rfl, fun e he => ?_⟩
    obtain hold | hnew := List.mem_append.mp (List.mem_of_mem_drop he)
    · exact h.measured e hold
    · rw [List.mem_singleton.mp hnew]
      exact nofun

theorem right_iff (room : Room) (a : Input) (h : Inv config room) :
    Right config room a ↔ Sensible config room a := by
  cases a with
  | historylength value => exact Iff.rfl
  | defaulthistorymessages value => exact Iff.rfl
  | join recipient tag now => exact iff_of_true (getHistory_spec h.measured).1 trivial
  | add message =>
    constructor
    · intro hright
      obtain ⟨⟨n, hn⟩, -⟩ := hright
      refine not_lt.mp fun hnegative => ?_
      rw [trim_negative hnegative] at hn
      exact absurd hn nofun
    · intro hsensible
      refine ⟨⟨_, add_spec message hsensible _ (le_refl _)⟩, ?_⟩
      have hadded := add_spec message hsensible
        (room.history ++ [message.entry config]).length
        (by rw [List.length_append, List.length_singleton])
      simp only [step, h.running, Bool.false_eq_true, if_false, addHistory, hadded]

/-- The history is right in a run if and only if the length is never negative when a message is
added. -/
theorem history_right_iff (config : Config) (inputs : List Input) :
    Machine.Guarded (step config) (Right config) Room.new inputs ↔
      Machine.Guarded (step config) (Sensible config) Room.new inputs :=
  Machine.guarded_congr (fun s a _ => inv_step s a) (fun s a _ => right_iff s a) inv_new

/-- Numbers are written in signs, with one sign before them if they are negative. -/
def plain : Config where
  host := []
  maxHistoryLength := .huge
  pairs := KeyOrder.inserted (List Char)
  tonumber := fun s => if s = "-1".toList then some (.ofRat (-1)) else none
  parse := fun _ => none

/-- The length is set to a negative number before a message is added. -/
def negative : List Input :=
  [.historylength (some "-1".toList), .add ⟨.elem "message".toList ∅ [], 0, [], []⟩]

theorem negative_does_not_end :
    ¬ Machine.Guarded (step plain) (Right plain) Room.new negative := by
  rintro ⟨-, ⟨⟨n, hn⟩, -⟩, -⟩
  have hnegative : getHistorylength plain
      (step plain Room.new (.historylength (some "-1".toList))) < 0 := by decide
  exact absurd ((trim_negative hnegative).symm.trans hn) nofun

end Runs

end Prosody.MucHistory
