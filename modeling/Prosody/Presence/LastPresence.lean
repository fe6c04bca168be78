import Prosody.Presence.TopResources

/-! # Top resources by what the sessions have sent

The availability of a session and its priority are those of the last presence that it has sent
since it was bound, so `top_resources` can be told from the presences alone. -/

namespace Prosody.Resources

open SessionManager (SessionId ConflictPolicy)

/-! ## What a priority element says -/

def Digits (digits : List Char) : Prop := digits ≠ [] ∧ digits.all Char.isDigit = true

/-- The text is a numeral: digits, and in front of them a sign or none. -/
inductive Writes (text : String) : Int → Prop
  | positive {digits : List Char} : Digits digits →
      text.toList = digits ∨ text.toList = '+' :: digits →
      Writes text (Nat.ofDigitChars 10 digits 0 : Nat)
  | negative {digits : List Char} : Digits digits → text.toList = '-' :: digits →
      Writes text (-(Nat.ofDigitChars 10 digits 0 : Nat))

/-- A numeral says the number that it writes, within the bounds of a priority. Any other element
says 0, as does a missing one and, where priorities are ignored, every one. -/
inductive Announces (ignorePriority : Bool) : Option String → Int → Prop
  | number {text : String} {n : Int} : ignorePriority = false → Writes text n →
      Announces ignorePriority (some text) (max (-128) (min 127 n))
  | other {text : String} : ignorePriority = true ∨ (∀ n, ¬ Writes text n) →
      Announces ignorePriority (some text) 0
  | missing : Announces ignorePriority none 0

theorem foldl_digits (digits : List Char) (n : Nat) :
    digits.foldl (fun (n : Int) c => 10 * n + (c.toNat - '0'.toNat : Nat)) n =
      (Nat.ofDigitChars 10 digits n : Nat) := by
  induction digits generalizing n with
  | nil => rfl
  | cons c digits ih =>
    rw [List.foldl_cons, Nat.ofDigitChars_cons, ← ih, Int.natCast_add, Int.natCast_mul]
    rfl

variable {text : String} {digits : List Char}

theorem priority_unsigned (htext : text.toList = digits) (h : Digits digits) :
    isPriority text = true ∧ readPriority text = (Nat.ofDigitChars 10 digits 0 : Nat) := by
  unfold isPriority readPriority
  rw [htext]
  cases digits with
  | nil => exact absurd rfl h.1
  | cons c cs =>
    have hplus : c ≠ '+' := by rintro rfl; simp [Digits] at h
    have hminus : c ≠ '-' := by rintro rfl; simp [Digits] at h
    split
    · rename_i heq
      exact absurd (List.cons.inj heq).1 hplus
    · rename_i heq
      exact absurd (List.cons.inj heq).1 hminus
    · exact ⟨decide_eq_true h, foldl_digits _ 0⟩

theorem priority_plus (htext : text.toList = '+' :: digits) :
    (isPriority text = true ↔ Digits digits) ∧
      readPriority text = (Nat.ofDigitChars 10 digits 0 : Nat) := by
  unfold isPriority readPriority
  rw [htext]
  exact ⟨decide_eq_true_iff, foldl_digits _ 0⟩

theorem priority_minus (htext : text.toList = '-' :: digits) :
    (isPriority text = true ↔ Digits digits) ∧
      readPriority text = -(Nat.ofDigitChars 10 digits 0 : Nat) := by
  unfold isPriority readPriority
  rw [htext]
  exact ⟨decide_eq_true_iff, congrArg Neg.neg (foldl_digits _ 0)⟩

theorem Writes.priority {n : Int} (h : Writes text n) :
    isPriority text = true ∧ readPriority text = n := by
  cases h with
  | positive hdigits htext =>
    rcases htext with htext | htext
    · exact priority_unsigned htext hdigits
    · exact ⟨(priority_plus htext).1.mpr hdigits, (priority_plus htext).2⟩
  | negative hdigits htext =>
    exact ⟨(priority_minus htext).1.mpr hdigits, (priority_minus htext).2⟩

theorem writes_of_isPriority (h : isPriority text = true) : ∃ n, Writes text n := by
  unfold isPriority at h
  have hdigits := of_decide_eq_true h
  split at hdigits
  · exact ⟨_, .positive hdigits (Or.inr ‹_›)⟩
  · exact ⟨_, .negative hdigits ‹_›⟩
  · exact ⟨_, .positive hdigits (Or.inl rfl)⟩

/-- The priority that is read off an element is the one that it announces, and no other. -/
theorem announces_iff (ignorePriority : Bool) (text : Option String) (p : Int) :
    Announces ignorePriority text p ↔ p = presencePriority ignorePriority text := by
  have hzero : presencePriority true text = 0 := by
    cases text with
    | none => rfl
    | some text => exact (by decide : presencePriority false (some "0") = 0)
  constructor
  · intro h
    cases h with
    | number hignore hwrites =>
      obtain ⟨his, hread⟩ := hwrites.priority
      rw [hignore, presencePriority]
      simp only [Bool.false_eq_true, if_false, his, if_true, hread]
    | @other text hother =>
      rcases hother with rfl | hnone
      · exact hzero.symm
      · cases ignorePriority with
        | true => exact hzero.symm
        | false =>
          have his : ¬ isPriority text = true := fun his => by
            obtain ⟨n, hn⟩ := writes_of_isPriority his
            exact hnone n hn
          rw [presencePriority]
          simp only [Bool.false_eq_true, if_false, his]
    | missing => cases ignorePriority <;> rfl
  · rintro rfl
    cases text with
    | none =>
      have hnone : presencePriority ignorePriority none = 0 := by cases ignorePriority <;> rfl
      rw [hnone]
      exact .missing
    | some text =>
      cases ignorePriority with
      | true =>
        rw [hzero]
        exact .other (Or.inl rfl)
      | false =>
        rw [presencePriority]
        simp only [Bool.false_eq_true, if_false]
        split
        · rename_i his
          obtain ⟨n, hn⟩ := writes_of_isPriority his
          rw [hn.priority.2]
          exact .number rfl hn
        · rename_i his
          exact .other (Or.inr fun n hn => his hn.priority.1)

/-! ## The last presence of each session -/

/-- The priority element of the last presence of each session, where that presence is an available
one. -/
abbrev Heard := SessionId → Option (Option String)

/-- A session that is bound has sent nothing yet. -/
def State.hear (s : State) (heard : Heard) : Op → Heard
  | .bind id .. => if (s.objects.get id).isSome then heard else Function.update heard id none
  | .presence id available priority =>
    Function.update heard id (if available then some priority else none)
  | .toggleCarbons .. => heard
  | .destroy .. => heard

def State.heard (ignorePriority : Bool) (s : State) (heard : Heard) :
    List (KeyOrder String × Op) → Heard
  | [] => heard
  | op :: ops =>
    match s.step ignorePriority op with
    | none => heard
    | some s' => s'.heard ignorePriority (s.hear heard op.2) ops

/-- The session is one of the user's, its last presence is an available one, and that announces the
priority. -/
def Heard.Available (ignorePriority : Bool) (heard : Heard) (user : User) (id : SessionId)
    (p : Int) : Prop :=
  (∃ resource, user.sessions.get resource = some id) ∧
    ∃ text, heard id = some text ∧ Announces ignorePriority text p

/-- Sessions have the priority of the last presence. -/
def State.Told (ignorePriority : Bool) (s : State) (heard : Heard) : Prop :=
  ∀ id session, s.objects.get id = some session →
    session.priority = (heard id).map (presencePriority ignorePriority)

namespace State

variable {ignorePriority : Bool} {s s' : State} {heard : Heard}

theorem told_empty (heard : Heard) : empty.Told ignorePriority heard := by
  intro id session hget
  cases hget

theorem Told.step (h : s.Told ignorePriority heard) (hs : s.Consistent)
    {op : KeyOrder String × Op} (hstep : s.step ignorePriority op = some s') :
    s'.Told ignorePriority (s.hear heard op.2) := by
  obtain ⟨ord, op⟩ := op
  intro id' session hget
  cases op with
  | bind id resource policy replacement rosterLoads =>
    obtain ⟨s'', hs'', -, hbound⟩ := hs.bind ord id resource policy replacement rosterLoads
    obtain rfl := Option.some.inj (hs''.symm.trans hstep)
    rw [hear]
    rcases hbound id' session hget with hold | ⟨hnone, rfl, hpriority⟩
    · split
      · exact h id' session hold
      · rename_i hfree
        have hne : id' ≠ id := by
          rintro rfl
          rw [hold] at hfree
          exact hfree rfl
        rw [Function.update_of_ne hne]
        exact h id' session hold
    · rw [hnone, if_neg (by simp), Function.update_self]
      exact hpriority
  | presence id available priority =>
    obtain ⟨s'', hs'', -, hobjects⟩ := hs.handleNormalPresence ord id available
      (presencePriority ignorePriority priority)
    obtain rfl := Option.some.inj (hs''.symm.trans hstep)
    rw [hobjects, Table.get_set] at hget
    rw [hear]
    by_cases hid : id' = id
    · rw [if_pos hid] at hget
      rw [hid, Function.update_self]
      obtain ⟨x, -, rfl⟩ := Option.map_eq_some_iff.mp hget
      cases available <;> rfl
    · rw [if_neg hid] at hget
      rw [Function.update_of_ne hid]
      exact h id' session hget
  | toggleCarbons id enable =>
    obtain rfl := Option.some.inj hstep
    rw [setSession, Table.get_set] at hget
    split at hget
    · rename_i hid
      obtain ⟨x, hx, rfl⟩ := Option.map_eq_some_iff.mp hget
      exact h id' x (hid ▸ hx)
    · exact h id' session hget
  | destroy id =>
    obtain ⟨s'', hs'', -, hobjects⟩ := hs.destroy ord id
    obtain rfl := Option.some.inj (hs''.symm.trans hstep)
    rw [hobjects, Table.get_set] at hget
    split at hget
    · cases hget
    · exact h id' session hget

theorem Told.run (h : s.Told ignorePriority heard) (hs : s.Consistent)
    (ops : List (KeyOrder String × Op)) :
    ∃ s', s.run ignorePriority ops = some s' ∧ s'.Consistent ∧
      s'.Told ignorePriority (s.heard ignorePriority heard ops) := by
  induction ops generalizing s heard with
  | nil => exact ⟨s, rfl, hs, h⟩
  | cons op ops ih =>
    obtain ⟨middle, hmiddle, hconsistent⟩ := hs.step ignorePriority op
    obtain ⟨s', hs', hlast⟩ := ih (h.step hs hmiddle) hconsistent
    refine ⟨s', ?_, ?_⟩
    · rw [State.run, List.foldlM_cons, hmiddle]
      exact hs'
    · rw [State.heard, hmiddle]
      exact hlast

theorem Told.priority_iff (h : s.Told ignorePriority heard) {id : SessionId} {session : Session}
    (hget : s.objects.get id = some session) (p : Int) : session.priority = some p ↔
      ∃ text, heard id = some text ∧ Announces ignorePriority text p := by
  rw [h id session hget, Option.map_eq_some_iff]
  refine exists_congr fun text => and_congr_right fun _ => ?_
  rw [announces_iff]
  exact eq_comm

theorem Told.available_iff (h : s.Told ignorePriority heard) (hs : s.Consistent) {user : User}
    (huser : s.user = some user) (id : SessionId) (p : Int) :
    s.Available user id p ↔ heard.Available ignorePriority user id p := by
  refine and_congr_right fun hid => ?_
  obtain ⟨resource, hresource⟩ := hid
  obtain ⟨session, hget, -⟩ := hs.held user huser resource id hresource
  rw [← h.priority_iff hget]
  constructor
  · rintro ⟨x, hx, -, hpriority⟩
    rw [hget] at hx
    obtain rfl := Option.some.inj hx
    exact hpriority
  · intro hpriority
    refine ⟨session, hget, ?_, hpriority⟩
    rw [hs.ordered id session hget, hpriority]
    rfl

end State

/-- No run fails to compare two priorities, and after each of them every session has the availability
and the priority of its last presence, and `top_resources` is what it should be. -/
theorem top_resources_of_run (ignorePriority : Bool) (ops : List (KeyOrder String × Op)) :
    ∃ s heard, State.empty.run ignorePriority ops = some s ∧
      State.empty.heard ignorePriority (fun _ => none) ops = heard ∧
      (∀ id session, s.objects.get id = some session →
        session.presence = (heard id).isSome ∧ session.presence = session.priority.isSome ∧
        ∀ p, session.priority = some p ↔
          ∃ text, heard id = some text ∧ Announces ignorePriority text p) ∧
      ∀ user, s.user = some user →
        (user.topResources = none ↔
          ∀ id p, heard.Available ignorePriority user id p → p < 0) ∧
        ∀ ids, user.topResources = some ids → ids.Nodup ∧ ∃ m, 0 ≤ m ∧
          (∃ id, heard.Available ignorePriority user id m) ∧
          (∀ id p, heard.Available ignorePriority user id p → p ≤ m) ∧
          ∀ id, id ∈ ids ↔ heard.Available ignorePriority user id m := by
  obtain ⟨s, hs, hconsistent, htold⟩ :=
    (State.told_empty fun _ => none).run State.consistent_empty ops
  refine ⟨s, _, hs, rfl, fun id session hget => ⟨?_, ?_, htold.priority_iff hget⟩,
    fun user huser => ?_⟩
  · rw [hconsistent.ordered id session hget, htold id session hget, Option.isSome_map]
  · exact hconsistent.ordered id session hget
  · obtain ⟨hidle, htop⟩ := hconsistent.fresh user huser
    simp only [htold.available_iff hconsistent huser] at hidle htop
    refine ⟨⟨hidle, fun hlow => ?_⟩, htop⟩
    by_contra hsome
    obtain ⟨ids, hids⟩ := Option.ne_none_iff_exists'.mp hsome
    obtain ⟨-, m, hm, ⟨id, hid⟩, -⟩ := htop ids hids
    exact absurd (hlow id m hid) (not_lt.mpr hm)

end Prosody.Resources
