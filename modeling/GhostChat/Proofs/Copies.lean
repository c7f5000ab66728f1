import GhostChat.Lib.Run
import GhostChat.Proofs.Crash
import GhostChat.Ref.SessionFiles

/-!
# Copies of one session

Any number of state objects may compete for the one file of a session: made
anew, loaded at different times, copied, and losing their process at any point
of a save. What a save compares is two numbers, the version in the file and the
version in memory, so everything said here is about these two.

The file's side is simple. A file that is replaced is replaced by one with a
version that passed the check and was raised by one, so versions on disk only
grow, whoever writes.

The objects' side is not. The version in memory is raised before the file is
written, so an object whose save failed late has moved on without the file. Two
objects loaded from one file are told apart by nothing but how often that
happened to them: the second to be saved is refused if it is behind what the
first one wrote, and it is behind only if it has failed less often than the
first has tried (`Behind`).
-/

namespace GhostChat.Proofs

open GhostChat.Lib GhostChat.Lib.Effect GhostChat.Ref

/-! ## The two versions -/

/-- The version that is stored, if a save can make it out. -/
def storedVersion : SessionFile → Option Int
  | .json v => (fileVersion v).toOption
  | .missing | .notJson => none

theorem fileVersion_stored (s : SessionState) :
    fileVersion (stateToDict s) = .ok (s.sessionVersion : Int) := by
  simp [fileVersion, stateToDict, Odict.get?, Json.toInt]

@[simp] theorem storedVersion_stored (s : SessionState) :
    storedVersion (.json (stateToDict s)) = some (s.sessionVersion : Int) := by
  rw [storedVersion, fileVersion_stored]
  rfl

theorem storedVersion_eq_some {f : SessionFile} {v : Int} (h : storedVersion f = some v) :
    ∃ d, f = .json d ∧ fileVersion d = .ok v := by
  cases f with
  | json d =>
      rw [storedVersion] at h
      cases hd : fileVersion d with
      | error e => rw [hd] at h; cases h
      | ok n =>
          rw [hd] at h
          obtain rfl : n = v := Option.some.inj h
          exact ⟨d, rfl, hd⟩
  | missing => cases h
  | notJson => cases h

/-- The check is the comparison of the two versions. -/
theorem checkRollback_stored {f : SessionFile} {v : Int} (h : storedVersion f = some v)
    (current : Nat) :
    checkRollback current f = if v > current
      then .error (.sessionRollback
        s!"Session rollback detected: file version {v} > in-memory version {current}")
      else .ok () := by
  obtain ⟨d, rfl, hd⟩ := storedVersion_eq_some h
  rw [checkRollback, hd, except_ok_bind]
  split <;> rfl

theorem le_of_checkRollback {f : SessionFile} {v : Int} {current : Nat}
    (h : storedVersion f = some v) (hcheck : checkRollback current f = .ok ()) :
    v ≤ current := by
  rw [checkRollback_stored h] at hcheck
  split at hcheck
  · cases hcheck
  · omega

/-- A save of an object that is behind the file raises and changes nothing. -/
theorem saveSession_stale {f : SessionFile} {v : Int} {s : SessionState} (io : SaveIo)
    (h : storedVersion f = some v) (hlt : s.sessionVersion < v) :
    ∃ e, saveSession io ⟨s, f⟩ = .error e ⟨s, f⟩ ∧
      ((∀ m, io ≠ .failsEarly m) → ∃ m, e = .sessionRollback m) := by
  have hcheck := checkRollback_stored h s.sessionVersion
  rw [if_pos hlt] at hcheck
  cases io with
  | failsEarly m => exact ⟨.osError m, rfl, fun hne => absurd rfl (hne m)⟩
  | ok => exact ⟨_, by simp [saveSession, hcheck]; rfl, fun _ => ⟨_, rfl⟩⟩
  | failsLate m => exact ⟨_, by simp [saveSession, hcheck]; rfl, fun _ => ⟨_, rfl⟩⟩

/-- A save that reaches the check is refused by nothing else than the check. -/
theorem saveSession_fresh {f : SessionFile} {s : SessionState} {io : SaveIo}
    (hio : ∀ m, io ≠ .failsEarly m) (hcheck : checkRollback s.sessionVersion f = .ok ())
    (e : Exn) (m : String) (slot : SessionSlot) :
    saveSession io ⟨s, f⟩ = .error e slot → e ≠ .sessionRollback m := by
  rintro h rfl
  cases io with
  | failsEarly m' => exact hio m' rfl
  | ok => simp [saveSession, hcheck] at h
  | failsLate m' => simp [saveSession, hcheck] at h

/-! ## What a step does to the file -/

namespace SessionCopies

variable {σ : SessionCopies}

theorem objects_of_object {i : Nat} {s : SessionState} (h : σ.object i = some s) :
    σ.objects[i]? = some (some s) := by
  rw [SessionCopies.object] at h
  cases hi : σ.objects[i]? with
  | none => rw [hi] at h; cases h
  | some o => rw [hi] at h; exact congrArg some h

/-- An object that is put back where it was. -/
theorem set_object {i : Nat} {s : SessionState} (h : σ.object i = some s) :
    σ.objects.set i (some s) = σ.objects := by
  obtain ⟨hi, hs⟩ := List.getElem?_eq_some_iff.mp (objects_of_object h)
  rw [← hs]
  exact List.set_getElem_self hi

theorem save_none {i : Nat} (h : σ.object i = none) (io : SaveIo) : σ.save i io = σ := by
  rw [SessionCopies.save, h]

/-- A save changes nothing, raises the object's version, or raises it and
replaces the file. -/
theorem save_cases {i : Nat} {s : SessionState} (h : σ.object i = some s) (io : SaveIo) :
    ((∃ e, saveSession io ⟨s, σ.file⟩ = .error e ⟨s, σ.file⟩) ∧ σ.save i io = σ) ∨
    checkRollback s.sessionVersion σ.file = .ok () ∧
      (σ.save i io = { σ with
          objects := σ.objects.set i (some { s with sessionVersion := s.sessionVersion + 1 })
          attempts := (i, false) :: σ.attempts } ∨
        σ.save i io = {
          objects := σ.objects.set i (some { s with sessionVersion := s.sessionVersion + 1 })
          file := .json (stateToDict { s with sessionVersion := s.sessionVersion + 1 })
          attempts := (i, true) :: σ.attempts }) := by
  rcases saveSession_cases io s σ.file with ⟨e, hr⟩ | ⟨hcheck, ⟨m, hr⟩ | hr⟩
  · refine Or.inl ⟨⟨e, hr⟩, ?_⟩
    simp only [SessionCopies.save, h, hr, if_true, set_object h]
  · refine Or.inr ⟨hcheck, Or.inl ?_⟩
    simp [SessionCopies.save, h, hr]
  · refine Or.inr ⟨hcheck, Or.inr ?_⟩
    simp only [SessionCopies.save, h, hr]

theorem save_file (i : Nat) (io : SaveIo) : (σ.save i io).file = σ.file ∨
    ∃ s : SessionState, checkRollback s.sessionVersion σ.file = .ok () ∧ (σ.save i io).file
      = .json (stateToDict { s with sessionVersion := s.sessionVersion + 1 }) := by
  cases h : σ.object i with
  | none => exact Or.inl (by rw [save_none h])
  | some s =>
      rcases save_cases h io with ⟨-, hsave⟩ | ⟨hcheck, hsave | hsave⟩
      · exact Or.inl (by rw [hsave])
      · exact Or.inl (by rw [hsave])
      · exact Or.inr ⟨s, hcheck, by rw [hsave]⟩

/-- The file stays, or an object that passed the check is now in it. -/
theorem step_file (act : CopyAct) : (σ.step act).file = σ.file ∨
    ∃ s : SessionState, checkRollback s.sessionVersion σ.file = .ok () ∧ (σ.step act).file
      = .json (stateToDict { s with sessionVersion := s.sessionVersion + 1 }) := by
  cases act with
  | create s => exact Or.inl rfl
  | load cap =>
      left
      rw [SessionCopies.step]
      split <;> rfl
  | copy i => exact Or.inl rfl
  | work i s =>
      left
      rw [SessionCopies.step]
      split <;> rfl
  | save i io => exact save_file i io
  | crash i replaced gone =>
      cases replaced with
      | false => exact Or.inl rfl
      | true => exact save_file i .ok

end SessionCopies

/-! ## Versions only grow -/

/-- What the rollback check is for, at one step. -/
structure AntiRollback (σ : SessionCopies) (act : CopyAct) : Prop where
  /-- The stored version does not go down. -/
  monotone : ∀ v, storedVersion σ.file = some v →
    ∃ v', storedVersion (σ.step act).file = some v' ∧ v ≤ v'
  /-- A file is replaced by one with a higher version, also where the process
  stops before the save returns. -/
  replaced : (σ.step act).file ≠ σ.file →
    ∃ v', storedVersion (σ.step act).file = some v' ∧ ∀ v, storedVersion σ.file = some v → v < v'
  /-- A save that returns has replaced the file. -/
  saved : ∀ i io s slot, act = .save i io → σ.object i = some s →
    saveSession io ⟨s, σ.file⟩ = .ok () slot →
    ∃ v', storedVersion (σ.step act).file = some v' ∧ ∀ v, storedVersion σ.file = some v → v < v'
  /-- A save of an older state raises, and nothing has changed. -/
  stale : ∀ i io s v, act = .save i io → σ.object i = some s → storedVersion σ.file = some v →
    s.sessionVersion < v → σ.step act = σ ∧ ∃ e, saveSession io ⟨s, σ.file⟩ = .error e ⟨s, σ.file⟩ ∧
      ((∀ m, io ≠ .failsEarly m) → ∃ m, e = .sessionRollback m)

/-- A version that passed the check is raised past the one in the file. -/
theorem stored_lt {σ : SessionCopies} {s : SessionState}
    (hcheck : checkRollback s.sessionVersion σ.file = .ok ()) :
    ∃ v', storedVersion (.json (stateToDict { s with sessionVersion := s.sessionVersion + 1 }))
      = some v' ∧ ∀ v, storedVersion σ.file = some v → v < v' := by
  refine ⟨_, storedVersion_stored _, fun v hv => ?_⟩
  have hle := le_of_checkRollback hv hcheck
  show v < ((s.sessionVersion + 1 : Nat) : Int)
  omega

theorem antiRollback_step (σ : SessionCopies) (act : CopyAct) : AntiRollback σ act where
  monotone v hv := by
    rcases SessionCopies.step_file (σ := σ) act with hfile | ⟨s, hcheck, hfile⟩
    · exact ⟨v, by rw [hfile, hv], Int.le_refl v⟩
    · obtain ⟨v', hv', hlt⟩ := stored_lt hcheck
      exact ⟨v', by rw [hfile, hv'], Int.le_of_lt (hlt v hv)⟩
  replaced hne := by
    rcases SessionCopies.step_file (σ := σ) act with hfile | ⟨s, hcheck, hfile⟩
    · exact absurd hfile hne
    · rw [hfile]
      exact stored_lt hcheck
  saved i io s slot hact hs hr := by
    subst hact
    rcases SessionCopies.save_cases hs io with ⟨⟨e, he⟩, -⟩ | ⟨hcheck, hsave | hsave⟩
    · rw [hr] at he
      cases he
    · -- An attempt that is noted as failed did not return.
      have hnoted := congrArg SessionCopies.attempts hsave
      simp only [SessionCopies.save, hs, hr] at hnoted
      cases hnoted
    · rw [SessionCopies.step, hsave]
      exact stored_lt hcheck
  stale i io s v hact hs hv hlt := by
    subst hact
    refine ⟨?_, saveSession_stale io hv hlt⟩
    rcases SessionCopies.save_cases hs io with ⟨-, hsave⟩ | ⟨hcheck, -⟩
    · exact hsave
    · have hle := le_of_checkRollback hv hcheck
      omega

/-- Starting with no file, whatever objects are made, loaded, copied and worked
with, however their saves end and whenever their processes stop: the stored
version never goes down, every save that completes raises it, and an object
that is behind the file is refused and leaves it alone. -/
theorem anti_rollback (acts : List CopyAct) : Along SessionCopies.step AntiRollback {} acts :=
  Along.strengthen (I := fun _ => True) (R := fun _ _ => True)
    (fun σ act _ _ => ⟨trivial, antiRollback_step σ act⟩) trivial
    (Along.of_forall fun _ _ => trivial)

/-! ## Two objects from one file -/

/-- Two objects were loaded from the file, and nothing has been saved since. -/
def SessionCopies.twice (file : Json) (s s' : SessionState) : SessionCopies where
  objects := [some s, some s']
  file := .json file

/-- The objects are worked with and saved; nobody else writes the file. -/
def WorkOrSave : CopyAct → Prop
  | .work _ _ | .save _ _ => True
  | .create _ | .load _ | .copy _ | .crash _ _ _ => False

instance WorkOrSave.decidable : (act : CopyAct) → Decidable (WorkOrSave act)
  | .work _ _ | .save _ _ => isTrue trivial
  | .create _ | .load _ | .copy _ | .crash _ _ _ => isFalse id

/-- A save gets as far as the check. -/
def Reaches (io : SaveIo) : Prop := ∀ m, io ≠ .failsEarly m

instance Reaches.decidable : (io : SaveIo) → Decidable (Reaches io)
  | .failsEarly m => isFalse fun h => h m rfl
  | .ok | .failsLate _ => isTrue nofun

/-- An object is refused once the other one has been saved. -/
def OtherRefused (σ : SessionCopies) : CopyAct → Prop
  | .save i io => Reaches io → ∀ s, σ.object i = some s →
      (∃ a ∈ σ.attempts, a.2 = true ∧ a.1 ≠ i) →
      ∃ m, saveSession io ⟨s, σ.file⟩ = .error (.sessionRollback m) ⟨s, σ.file⟩
  | _ => True

/-- No two objects have been saved. -/
def OneSaved (attempts : List (Nat × Bool)) : Prop :=
  ∀ a ∈ attempts, ∀ b ∈ attempts, a.2 = true → b.2 = true → a.1 = b.1

instance OneSaved.decidable (attempts : List (Nat × Bool)) : Decidable (OneSaved attempts) :=
  inferInstanceAs (Decidable (∀ a ∈ attempts, ∀ b ∈ attempts, _ → _ → _))

/-- How often a save of the object got past the check. -/
def tries (i : Nat) (attempts : List (Nat × Bool)) : Nat := attempts.countP (·.1 = i)

/-- The attempts up to the one that wrote the file, which is the first. -/
def upToSaved (attempts : List (Nat × Bool)) : List (Nat × Bool) := attempts.dropWhile (!·.2)

/-- An object that is saved after the other one has tried less often than that
one had when it wrote the file. -/
def Behind (σ : SessionCopies) : CopyAct → Prop
  | .save i io => Reaches io → (σ.object i).isSome → ∀ a ∈ σ.attempts, a.2 = true → a.1 ≠ i →
      tries i σ.attempts < tries a.1 (upToSaved σ.attempts)
  | _ => True

instance Behind.decidable (σ : SessionCopies) : (act : CopyAct) → Decidable (Behind σ act)
  | .save i io => inferInstanceAs
      (Decidable (Reaches io → (σ.object i).isSome → ∀ a ∈ σ.attempts, _ → _ → _))
  | .create _ | .load _ | .copy _ | .work _ _ | .crash _ _ _ => isTrue trivial

/-- Where the objects and the file stand, `base` being the version they were
loaded with. -/
structure Race (base : Nat) (σ : SessionCopies) : Prop where
  memory : ∀ i s, σ.object i = some s → s.sessionVersion = base + tries i σ.attempts
  fresh : upToSaved σ.attempts = [] → ∃ v, storedVersion σ.file = some v ∧ v ≤ base
  written : ∀ a past, upToSaved σ.attempts = a :: past →
    storedVersion σ.file = some ((base + tries a.1 (a :: past) : Nat) : Int)
  one : OneSaved σ.attempts

theorem upToSaved_head {attempts past : List (Nat × Bool)} {a : Nat × Bool}
    (h : upToSaved attempts = a :: past) : a ∈ attempts ∧ a.2 = true := by
  have hsub : a ∈ upToSaved attempts := by
    rw [h]
    exact List.mem_cons_self
  refine ⟨(List.dropWhile_sublist _).subset hsub, ?_⟩
  have hhead := List.head?_dropWhile_not (fun a : Nat × Bool => !a.2) attempts
  rw [upToSaved] at h
  rw [h] at hhead
  simpa using hhead

theorem upToSaved_nil {attempts : List (Nat × Bool)} (h : upToSaved attempts = []) :
    ∀ a ∈ attempts, a.2 = false := by
  simpa [upToSaved, List.dropWhile_eq_nil_iff] using h

/-- A file that was loaded has a version in it, and the object has it or, where
it was left out, a later one. -/
theorem loaded_version {cap : Nat} {file : Json} {s : SessionState}
    (h : loadSession cap (.json file) = .ok (some s)) :
    (∃ v, storedVersion (.json file) = some v ∧ v ≤ s.sessionVersion) ∧
      ∃ d, file = .dict d ∧ requireSessionVersion d = .ok s.sessionVersion := by
  obtain ⟨s₁, hs, hsome⟩ : ∃ s₁, stateFromDict cap file = .ok s₁ ∧ some s₁ = some s := by
    rw [loadSession] at h
    cases hd : stateFromDict cap file with
    | error e => rw [hd] at h; cases h
    | ok s₁ => rw [hd] at h; exact ⟨s₁, rfl, Except.ok.inj h⟩
  rw [Option.some.inj hsome] at hs
  cases file with
  | dict d =>
      obtain ⟨-, -, -, -, hversion⟩ := stateFromDict_ok hs
      refine ⟨?_, d, rfl, hversion⟩
      unfold requireSessionVersion at hversion
      cases hget : Odict.get? d "session_version" with
      | none => exact ⟨0, by simp [storedVersion, fileVersion, hget]; rfl, by omega⟩
      | some v =>
          rw [hget, Option.getD_some] at hversion
          cases v with
          | int n =>
              dsimp only at hversion
              split at hversion
              · cases hversion
              · injection hversion with hversion
                exact ⟨n, by simp [storedVersion, fileVersion, hget]; rfl, by omega⟩
          | _ => cases hversion
  | _ => cases hs

theorem Race.start {cap cap' : Nat} {file : Json} {s s' : SessionState}
    (hs : loadSession cap (.json file) = .ok (some s))
    (hs' : loadSession cap' (.json file) = .ok (some s')) :
    Race s.sessionVersion (SessionCopies.twice file s s') := by
  obtain ⟨hfresh, d, rfl, hversion⟩ := loaded_version hs
  obtain ⟨-, d', hd', hversion'⟩ := loaded_version hs'
  obtain rfl : d = d' := by injection hd'
  have heq : s'.sessionVersion = s.sessionVersion := by
    rw [hversion] at hversion'
    exact (Except.ok.inj hversion').symm
  refine ⟨fun i t ht => ?_, fun _ => hfresh, nofun, nofun⟩
  match i with
  | 0 => cases ht; rfl
  | 1 => cases ht; exact heq
  | i + 2 => cases ht

section Step

variable {base i : Nat} {σ σ' : SessionCopies} {s x : SessionState}

theorem object_set (h : σ.object i = some s) (hobjects : σ'.objects = σ.objects.set i (some x))
    (j : Nat) : σ'.object j = if j = i then some x else σ.object j := by
  obtain ⟨hi, -⟩ := List.getElem?_eq_some_iff.mp (SessionCopies.objects_of_object h)
  rw [SessionCopies.object, hobjects, List.getElem?_set]
  by_cases hj : i = j
  · rw [if_pos hj, if_pos (by omega), if_pos hj.symm]
    rfl
  · rw [if_neg hj, if_neg (Ne.symm hj)]
    rfl

/-- Both refusals come to the same: with the file where it stands, an object is
refused exactly if its count is below the one that was written. -/
theorem Race.refused_iff (h : Race base σ) (act : CopyAct) :
    OtherRefused σ act ↔ Behind σ act := by
  cases act with
  | save i io =>
      -- The file as the last save that succeeded has left it.
      have hstored : ∀ a ∈ σ.attempts, a.2 = true → storedVersion σ.file
          = some ((base + tries a.1 (upToSaved σ.attempts) : Nat) : Int) := by
        intro a ha hsaved
        cases hup : upToSaved σ.attempts with
        | nil =>
            rw [upToSaved_nil hup a ha] at hsaved
            cases hsaved
        | cons b past =>
            obtain ⟨hb, hbsaved⟩ := upToSaved_head hup
            rw [h.written b past hup, h.one a ha b hb hsaved hbsaved]
      constructor
      · intro hrefused hio hsome a ha hsaved hne
        obtain ⟨s, hs⟩ := Option.isSome_iff_exists.mp hsome
        obtain ⟨m, hr⟩ := hrefused hio s hs ⟨a, ha, hsaved, hne⟩
        have hmem := h.memory i s hs
        by_contra hle
        refine saveSession_fresh hio ?_ _ m _ hr rfl
        rw [checkRollback_stored (hstored a ha hsaved), if_neg (by omega)]
      · intro hbehind hio s hs hother
        obtain ⟨a, ha, hsaved, hne⟩ := hother
        have hlt := hbehind hio (by rw [hs]; rfl) a ha hsaved hne
        have hmem := h.memory i s hs
        obtain ⟨e, hr, he⟩ := saveSession_stale io (hstored a ha hsaved) (s := s) (by omega)
        obtain ⟨m, rfl⟩ := he hio
        exact ⟨m, hr⟩
  | create s => exact Iff.rfl
  | load cap => exact Iff.rfl
  | copy i => exact Iff.rfl
  | work i s => exact Iff.rfl
  | crash i replaced gone => exact Iff.rfl

/-- A save past the check is one more try of this object. -/
theorem Race.tried (h : Race base σ) (hs : σ.object i = some s) (b : Bool)
    (hobjects : σ'.objects = σ.objects.set i (some { s with
      sessionVersion := s.sessionVersion + 1 })) (hattempts : σ'.attempts = (i, b) :: σ.attempts)
    (j : Nat) (t : SessionState) (ht : σ'.object j = some t) :
    t.sessionVersion = base + tries j σ'.attempts := by
  have hmem := h.memory i s hs
  rw [object_set hs hobjects] at ht
  rw [hattempts, tries, List.countP_cons]
  by_cases hj : j = i
  · rw [if_pos hj] at ht
    cases ht
    subst hj
    simp only [tries] at hmem
    simp
    omega
  · rw [if_neg hj] at ht
    rw [h.memory j t ht, tries]
    simp [Ne.symm hj]

theorem Race.save (h : Race base σ) (hs : σ.object i = some s) (io : SaveIo)
    (hrefused : OtherRefused σ (.save i io)) : Race base (σ.save i io) := by
  rcases SessionCopies.save_cases hs io with ⟨-, hsave⟩ | ⟨hcheck, hsave | hsave⟩
  · rw [hsave]
    exact h
  · rw [hsave]
    exact {
      memory := h.tried hs false rfl rfl
      fresh := h.fresh
      written := h.written
      one := by
        intro a ha b hb hasaved hbsaved
        rcases List.mem_cons.mp ha with rfl | ha
        · cases hasaved
        · rcases List.mem_cons.mp hb with rfl | hb
          · cases hbsaved
          · exact h.one a ha b hb hasaved hbsaved }
  · -- A save that was not refused is the first, or by the one that saved before.
    have hsame : ∀ a ∈ σ.attempts, a.2 = true → a.1 = i := by
      intro a ha hsaved
      by_contra hne
      have hio : Reaches io := by
        rintro m rfl
        have hnoted := congrArg SessionCopies.attempts hsave
        simp [SessionCopies.save, hs, saveSession] at hnoted
      obtain ⟨m, hr⟩ := hrefused hio s hs ⟨a, ha, hsaved, hne⟩
      exact saveSession_fresh hio hcheck _ m _ hr rfl
    have hmem := h.memory i s hs
    rw [hsave]
    exact {
      memory := h.tried hs true rfl rfl
      fresh := by rintro ⟨⟩
      written := by
        rintro a past ⟨rfl, rfl⟩
        rw [storedVersion_stored]
        simp only [tries, List.countP_cons] at hmem ⊢
        simp
        omega
      one := by
        have hall : ∀ a ∈ (i, true) :: σ.attempts, a.2 = true → a.1 = i := by
          intro a ha hsaved
          rcases List.mem_cons.mp ha with rfl | ha
          · rfl
          · exact hsame a ha hsaved
        intro a ha b hb hasaved hbsaved
        rw [hall a ha hasaved, hall b hb hbsaved] }

theorem Race.step (h : Race base σ) {act : CopyAct} (hact : WorkOrSave act)
    (hrefused : OtherRefused σ act) : Race base (σ.step act) := by
  cases act with
  | work i t =>
      cases hs : σ.object i with
      | none =>
          rw [SessionCopies.step, hs]
          exact h
      | some s =>
          rw [SessionCopies.step, hs]
          refine { h with memory := fun j u hu => ?_ }
          rw [object_set hs rfl] at hu
          by_cases hj : j = i
          · rw [if_pos hj] at hu
            cases hu
            rw [hj]
            exact h.memory i s hs
          · rw [if_neg hj] at hu
            exact h.memory j u hu
  | save i io =>
      cases hs : σ.object i with
      | none =>
          rw [SessionCopies.step, SessionCopies.save_none hs]
          exact h
      | some s => exact h.save hs io hrefused
  | create s => exact hact.elim
  | load cap => exact hact.elim
  | copy i => exact hact.elim
  | crash i replaced gone => exact hact.elim

end Step

/-- Over every run of saves on two objects that were loaded from one file, of
which any may fail, before the check or after it: the second object is always
refused once the first has been saved, and no two are ever saved, exactly if
at every save of an object after the other was saved it has got past the check
less often than the other had when it wrote the file. -/
theorem one_saved_iff {cap cap' : Nat} {file : Json} {s s' : SessionState}
    (hs : loadSession cap (.json file) = .ok (some s))
    (hs' : loadSession cap' (.json file) = .ok (some s')) {acts : List CopyAct}
    (hacts : ∀ act ∈ acts, WorkOrSave act) :
    (Along SessionCopies.step OtherRefused (SessionCopies.twice file s s') acts ∧
        OneSaved (runFrom SessionCopies.step (SessionCopies.twice file s s') acts).attempts) ↔
      Along SessionCopies.step Behind (SessionCopies.twice file s s') acts := by
  have hrun : Along SessionCopies.step (fun _ act => WorkOrSave act)
      (SessionCopies.twice file s s') acts := Along.of_forall hacts
  have hcongr : Along SessionCopies.step OtherRefused (SessionCopies.twice file s s') acts ↔
      Along SessionCopies.step Behind (SessionCopies.twice file s s') acts :=
    Along.congr (fun _ act h _ => h.refused_iff act)
      (fun _ act h hact hbehind => h.step hact ((h.refused_iff act).mpr hbehind))
      (Race.start hs hs') hrun
  rw [← hcongr]
  refine and_iff_left_of_imp fun hrefused => ?_
  exact (Along.invariant (fun _ _ h hact => h.step hact.1 hact.2) (Race.start hs hs')
    (hrun.and hrefused)).one

theorem sampleSaved_file :
    loadSession 1000 (.json (stateToDict sampleSaved)) = .ok (some sampleSaved) := by
  rw [loadSession, sampleSaved_loads]
  rfl

/-- One object fails once and is then saved, twice; the other one finds a later
version. -/
theorem one_saved_after_failure :
    let σ := SessionCopies.twice (stateToDict sampleSaved) sampleSaved sampleSaved
    let acts : List CopyAct := [.save 0 (.failsLate "No space left on device"), .save 0 .ok,
      .save 1 .ok, .save 0 .ok, .save 1 .ok]
    Along SessionCopies.step OtherRefused σ acts ∧
      OneSaved (runFrom SessionCopies.step σ acts).attempts :=
  (one_saved_iff sampleSaved_file sampleSaved_file (by decide)).mpr (by decide +kernel)

/-- An object whose save failed late is not behind what the other one then
writes, and overwrites it. -/
theorem both_saved :
    loadSession 1000 (.json (stateToDict sampleSaved)) = .ok (some sampleSaved) ∧
      ¬ OneSaved (runFrom SessionCopies.step
        (SessionCopies.twice (stateToDict sampleSaved) sampleSaved sampleSaved)
        [.save 0 (.failsLate "No space left on device"), .save 1 .ok, .save 0 .ok]).attempts :=
  ⟨sampleSaved_file, by decide +kernel⟩

end GhostChat.Proofs
