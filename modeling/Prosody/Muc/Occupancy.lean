import Mathlib.Data.String.Basic
import Prosody.Muc.Restore

/-! # The occupant index of a room

Rooms as they come about: created through the server or by a first presence, restored from a
frozen configuration and live state, and changed by any sequence of operations. -/

namespace Prosody.Muc

namespace Room

/-- What is promised of an operation on the room with this address. -/
def Op.Routed (roomJid : String) : Op → Prop
  | .presence stanza verdict => RoutedPresence roomJid stanza verdict
  | _ => True

inductive Reachable (sv : Server) : Room → Prop where
  | new {jid : String} (membersOnly moderated : Bool) (h : Jid.bare jid = some jid) :
      Reachable sv (Room.new jid membersOnly moderated)
  | created {jid : String} (env : Env) {stanza : Presence} (membersOnly moderated : Bool)
      {verdict : Verdict} (h : Jid.bare jid = some jid)
      (haddr : (Room.new jid false false).addressed stanza.recipient)
      (hr : RoutedPresence jid stanza verdict) (ht : stanza.type = none) :
      Reachable sv ((Room.new jid false false).handleFirstPresence sv env stanza membersOnly
        moderated verdict)
  | restored {r r' : Room} (env : Env) (ord : KeyOrder String) (newFormat : Bool)
      (h : Reachable sv r) (h' : Reachable sv r') (hjid : r.jid = r'.jid) :
      Reachable sv (restore env (r.freeze newFormat) (some (r'.freezeState ord)))
  | restoredConfig {r : Room} (env : Env) (newFormat : Bool) (h : Reachable sv r) :
      Reachable sv (restore env (r.freeze newFormat) none)
  | step {r : Room} (env : Env) {op : Op} (h : Reachable sv r) (hr : op.Routed r.jid) :
      Reachable sv (step sv r (env, op))

theorem Consistent.step {r : Room} (h : r.Consistent) (sv : Server) (env : Env) {op : Op}
    (hr : op.Routed r.jid) : (r.step sv (env, op)).Consistent := by
  by_cases hop : ∃ stanza verdict, op = .presence stanza verdict
  · obtain ⟨stanza, verdict, rfl⟩ := hop
    dsimp only [Room.step]
    split
    · rename_i haddr
      exact h.handlePresenceToOccupant sv env haddr hr
    · exact h
  · have hno : ∀ stanza verdict, op ≠ .presence stanza verdict :=
      fun stanza verdict heq => hop ⟨stanza, verdict, heq⟩
    exact h.of_whole (h.whole.step sv env hno) (step_jid sv env r op)
      fun n o' ho' => Or.inl (h.housed.keeps_step sv env hno n o' ho')

theorem Reachable.consistent {sv : Server} {r : Room} (h : Reachable sv r) : r.Consistent := by
  induction h with
  | new membersOnly moderated h => exact consistent_new h membersOnly moderated
  | created env membersOnly moderated h haddr hr ht =>
    exact (consistent_new h false false).handleFirstPresence sv env membersOnly moderated rfl
      haddr hr ht
  | restored env ord newFormat _ _ hjid ih ih' => exact ih'.storable.restore hjid env ord newFormat
  | restoredConfig env newFormat _ ih => exact ih.restoreConfig env newFormat
  | step env _ hr ih => exact ih.step sv env hr

/-- The index names the occupant of every session, and stored occupants are whole. -/
structure Indexed (r : Room) : Prop where
  index : ∀ j n, r.jidNick.get j = some n ↔
    ∃ o pr, r.occupants.get n = some o ∧ o.sessions.get j = some pr
  unique : ∀ j n n' o o' pr pr', r.occupants.get n = some o → o.sessions.get j = some pr →
    r.occupants.get n' = some o' → o'.sessions.get j = some pr' → n = n'
  role : ∀ n o, r.occupants.get n = some o → o.role ≠ none
  available : ∀ n o j pr, r.occupants.get n = some o → o.sessions.get j = some pr → pr.type = none
  nonempty : ∀ n o, r.occupants.get n = some o → ∃ j pr, o.sessions.get j = some pr
  primary : ∀ n o, r.occupants.get n = some o →
    ∃ j pr, o.jid = some j ∧ o.sessions.get j = some pr
  nick : ∀ n o, r.occupants.get n = some o → o.nick = n

theorem Consistent.indexed {r : Room} (hc : r.Consistent) : r.Indexed := by
  refine ⟨?_, ?_, ?_, ?_, ?_, ?_, hc.nick⟩
  · intro j n
    rw [hc.index]
    constructor
    · rintro ⟨o, ho, pr, hpr, -⟩
      exact ⟨o, pr, ho, hpr⟩
    · rintro ⟨o, pr, ho, hpr⟩
      exact ⟨o, ho, pr, hpr, (hc.present n o ho).live j pr hpr⟩
  · intro j n n' o o' pr pr' ho hj ho' hj'
    exact hc.storable.session_unique ho hj ho' hj'
  · intro n o ho
    exact (hc.present n o ho).role
  · intro n o j pr ho
    exact (hc.present n o ho).live j pr
  · intro n o ho
    obtain ⟨j, -, pr, hpr, -⟩ := (hc.present n o ho).primary
    exact ⟨j, pr, hpr⟩
  · intro n o ho
    obtain ⟨j, hj, pr, hpr, -⟩ := (hc.present n o ho).primary
    exact ⟨j, pr, hj, hpr⟩

theorem occupants_indexed {sv : Server} {r : Room} (h : Reachable sv r) : r.Indexed :=
  h.consistent.indexed

/-! ## A room of two users -/

def plainServer : Server :=
  { admin := fun _ => false
    enc := ⟨some, some, some⟩ }

def ascending : Env :=
  { order := KeyOrder.ascending String
    membersOnlyFirst := true }

def joinAs (realJid nick : String) : Presence :=
  { type := none
    sender := realJid
    recipient := "garden@verona" ++ "/" ++ nick
    tags := [⟨"x", some mucNs⟩] }

/-- Juliet creates the room, and Romeo joins it. -/
def garden : Room :=
  ((Room.new "garden@verona" false false).handleFirstPresence plainServer ascending
    (joinAs "juliet@capulet/balcony" "juliet") false false .pass).step plainServer
    (ascending, .presence (joinAs "romeo@montague/orchard" "romeo") .pass)

theorem garden_reachable : Reachable plainServer garden := by
  refine .step ascending (.created ascending false false (by decide) (by decide) ?_ rfl) ?_
  · exact ⟨⟨"juliet@capulet", by decide, by decide⟩, by simp⟩
  · exact ⟨⟨"romeo@montague", by decide, by decide +kernel⟩, by simp⟩

theorem occupants_indexed_garden : garden.Indexed ∧
    garden.jidNick.get "romeo@montague/orchard" = some "garden@verona/romeo" :=
  ⟨occupants_indexed garden_reachable, by decide +kernel⟩

end Room

end Prosody.Muc
