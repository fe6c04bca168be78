import Prosody.Library.Runs
import Prosody.Storage.Archive

/-! # Offline messages (`plugins/mod_offline.lua`)

Messages to a user without sessions are archived, and handed over when a session becomes
available. The archive is kept by the internal driver. -/

namespace Prosody.Offline

open Archive

variable {τ β : Type*} [LinearOrder τ]

/-- The archive of a user, the stanzas that its sessions have been sent, and those that have been
archived, as they are to be sent. -/
structure Mailbox (τ β : Type*) where
  items : List (Item τ β)
  sent : List (Stanza β)
  taken : List (Stanza β)

/-- Events with the key that is made up, the time, and whether the archive can be written. -/
inductive Event (τ β : Type*)
  | handle (stanza : Stanza β) (id : String) (now : τ) (ok : Bool)
  | broadcast (ok : Bool)

def everything : Query τ := Criteria.query ⟨none, none, none, none⟩

/-- The stanza with a delay element, without the attributes that the archive uses for itself. -/
def delayed (delay : τ → β → β) (stanza : Stanza β) (when : τ) : Stanza β :=
  ⟨(stanza.attr.set "stamp" none).set "stamp_legacy" none, delay when stanza.body⟩

/-- `stanza:tag("delay", ...)` for everything in the archive; `delay` adds the element. -/
def sends (delay : τ → β → β) (items : List (Item τ β)) : List (Stanza β) :=
  (Internal.find everything items).map fun item =>
    { item.value with body := delay item.when item.value.body }

def step (dates : Internal.Dates τ) (delay : τ → β → β) (m : Mailbox τ β) :
    Event τ β → Mailbox τ β
  | .handle stanza id now ok =>
    if ok then
      { m with
        items := Internal.append dates m.items none id stanza now (some "")
        taken := m.taken ++ [delayed delay stanza now] }
    else m
  | .broadcast ok =>
    { m with
      items := if ok then (Internal.delete everything m.items).1 else m.items
      sent := m.sent ++ sends delay m.items }

section

variable {dates : Internal.Dates τ} {delay : τ → β → β} {m : Mailbox τ β}

theorem sends_eq (items : List (Item τ β)) :
    sends delay items = items.map fun item => delayed delay item.value item.when := by
  have hfind : Internal.find everything items = (items.zipIdx 1).map Internal.present := rfl
  rw [sends, hfind, List.map_map]
  nth_rewrite 2 [← List.zipIdx_map_fst 1 items]
  rw [List.map_map]
  rfl

omit [LinearOrder τ] in
theorem delayed_stamp (stanza : Stanza β) (now : τ) :
    delayed delay (Internal.stamp dates stanza now) now = delayed delay stanza now := by
  have hne : "stamp" ≠ "stamp_legacy" := by decide
  simp [delayed, Internal.stamp, Table.set_comm _ hne]

/-- What has been taken was sent or is in the archive, once and in order. -/
def Settled (delay : τ → β → β) (m : Mailbox τ β) : Prop :=
  m.sent ++ sends delay m.items = m.taken

theorem Settled.step_iff (h : Settled delay m) (e : Event τ β) :
    Settled delay (step dates delay m e) ↔ (e = .broadcast false → m.items = []) := by
  rw [Settled, sends_eq] at h ⊢
  cases e with
  | handle stanza id now ok =>
    refine iff_of_true ?_ fun h => by cases h
    cases ok with
    | false => exact h
    | true => simp [step, Internal.append, delayed_stamp, ← h]
  | broadcast ok =>
    have hdelete : (Internal.delete everything m.items).1 = [] := rfl
    cases ok with
    | false => simp [step, sends_eq, ← h]
    | true => simpa [step, sends_eq, hdelete] using h

/-- No message is lost, repeated or overtaken, exactly if no broadcast that sends something fails to
empty the archive. -/
theorem always_settled_iff (dates : Internal.Dates τ) (delay : τ → β → β)
    (events : List (Event τ β)) :
    Machine.Always (step dates delay) (Settled delay) ⟨[], [], []⟩ events ↔
      Machine.Guarded (step dates delay) (fun m e => e = .broadcast false → m.items = [])
        ⟨[], [], []⟩ events := by
  have hstart : Settled delay (⟨[], [], []⟩ : Mailbox τ β) := rfl
  exact Machine.always_iff_guarded (fun _ h => h) (fun _ e h => (h.step_iff e).mpr)
    (fun _ e h => (h.step_iff e).mp) hstart events

end

end Prosody.Offline
