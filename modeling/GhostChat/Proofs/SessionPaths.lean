import GhostChat.Proofs.Copies
import GhostChat.Proofs.Peers

/-!
# Which sessions share a file

A session's file is named by its two user names: every character that is not
alphanumeric, `-` or `_` becomes `_`, and two more of them stand in between. No
name is excluded by this, so nothing keeps the separator out of a name, and two
pairs can share a file in two ways: their names become the same, or one local
name goes on through a separator into what is the remote name of the other
(`Shifted`).

That is all. Two pairs whose paths differ are independent of each other, the
temporary file included, for that one ends in `.tmp` and a session's does not.
-/

namespace GhostChat.Proofs

open GhostChat.Lib GhostChat.Lib.Effect GhostChat.Ref

variable {isalnum : Char → Bool}

/-! ## Paths -/

/-- A name as it stands in a path. -/
def safeString (isalnum : Char → Bool) (name : String) : String :=
  String.ofList (name.toList.map (safeChar isalnum))

def pathOf (isalnum : Char → Bool) (localUsername remoteUsername : String) : String :=
  safeString isalnum localUsername ++ "__" ++ safeString isalnum remoteUsername ++ ".json"

theorem sessionPath_pathOf (l r : String) :
    sessionPath isalnum l (.str r) = .ok (pathOf isalnum l r) := sessionPath_str l r

theorem tempPath_ne_pathOf (path l r : String) : tempPath path ≠ pathOf isalnum l r := by
  intro h
  have hlast := congrArg (fun s : String => s.toList.getLast?) h
  simp only [tempPath, pathOf, String.toList_append, List.getLast?_append] at hlast
  rw [show ".tmp".toList.getLast? = some 'p' by rfl,
    show ".json".toList.getLast? = some 'n' by rfl] at hlast
  cases hlast

/-- The first local name goes on, through the separator, into the remote name:
the second pair is cut at a later place of the same string. -/
def Shifted (l r l' r' : String) : Prop :=
  (l' = l ++ "_" ∧ r = "_" ++ r') ∨ ∃ m, l' = l ++ "__" ++ m ∧ r = m ++ "__" ++ r'

theorem Shifted.path_eq {l r l' r' : String} (h : Shifted l r l' r') :
    l ++ "__" ++ r = l' ++ "__" ++ r' := by
  rcases h with ⟨rfl, rfl⟩ | ⟨m, rfl, rfl⟩
  · rw [← String.toList_inj]
    simp
  · rw [← String.toList_inj]
    simp

/-- Where the first local name is the shorter one. -/
theorem shifted_of_longer {l r l' r' t : List Char} (hl : l' = l ++ t)
    (h : '_' :: '_' :: r = t ++ '_' :: '_' :: r') :
    (l' = l ∧ r = r') ∨ (l' = l ++ ['_'] ∧ r = '_' :: r') ∨
      ∃ m, l' = l ++ '_' :: '_' :: m ∧ r = m ++ '_' :: '_' :: r' := by
  match t, h with
  | [], h =>
      left
      simpa [hl] using h
  | [x], h =>
      right; left
      simp only [List.singleton_append, List.cons.injEq] at h
      obtain ⟨rfl, -, rfl⟩ := h
      exact ⟨hl, rfl⟩
  | x :: y :: m, h =>
      right; right
      simp only [List.cons_append, List.cons.injEq] at h
      obtain ⟨rfl, rfl, rfl⟩ := h
      exact ⟨m, hl, rfl⟩

theorem joined_eq_iff {l r l' r' : String} : l ++ "__" ++ r = l' ++ "__" ++ r' ↔
    (l = l' ∧ r = r') ∨ Shifted l r l' r' ∨ Shifted l' r' l r := by
  constructor
  · -- One of the two local names begins with the other.
    have hlonger : ∀ {l l' : String} {t : List Char} (r r' : String),
        l'.toList = l.toList ++ t → '_' :: '_' :: r.toList = t ++ '_' :: '_' :: r'.toList →
        (l = l' ∧ r = r') ∨ Shifted l r l' r' := by
      intro l l' t r r' hl ht
      rcases shifted_of_longer hl ht with ⟨hl, hr⟩ | ⟨hl, hr⟩ | ⟨m, hl, hr⟩
      · exact Or.inl ⟨(String.toList_inj.mp hl).symm, String.toList_inj.mp hr⟩
      · refine Or.inr (Or.inl ⟨String.toList_inj.mp ?_, String.toList_inj.mp ?_⟩)
        · simpa using hl
        · simpa using hr
      · refine Or.inr (Or.inr ⟨String.ofList m, String.toList_inj.mp ?_, String.toList_inj.mp ?_⟩)
        · simpa using hl
        · simpa using hr
    intro h
    have hlist := congrArg String.toList h
    simp only [String.toList_append, List.append_assoc] at hlist
    rcases List.append_eq_append_iff.mp hlist with ⟨t, hl, ht⟩ | ⟨t, hl, ht⟩
    · rcases hlonger r r' hl (by simpa using ht) with heq | hshift
      · exact Or.inl heq
      · exact Or.inr (Or.inl hshift)
    · rcases hlonger r' r hl (by simpa using ht) with ⟨hl, hr⟩ | hshift
      · exact Or.inl ⟨hl.symm, hr.symm⟩
      · exact Or.inr (Or.inr hshift)
  · rintro (⟨rfl, rfl⟩ | hshift | hshift)
    · rfl
    · exact hshift.path_eq
    · exact hshift.path_eq.symm

/-- The names of the two pairs make one path. -/
def Collide (isalnum : Char → Bool) (l r l' r' : String) : Prop :=
  let sl := safeString isalnum l
  let sr := safeString isalnum r
  let sl' := safeString isalnum l'
  let sr' := safeString isalnum r'
  (sl = sl' ∧ sr = sr') ∨ Shifted sl sr sl' sr' ∨ Shifted sl' sr' sl sr

theorem pathOf_eq_iff {l r l' r' : String} :
    pathOf isalnum l r = pathOf isalnum l' r' ↔ Collide isalnum l r l' r' := by
  have hsuffix : ∀ s s' : String, s ++ ".json" = s' ++ ".json" ↔ s = s' := by
    intro s s'
    rw [← String.toList_inj, String.toList_append, String.toList_append, List.append_left_inj,
      String.toList_inj]
  rw [Collide, ← joined_eq_iff, pathOf, pathOf, hsuffix]

/-! ## Saving and loading -/

/-- Whatever is saved for the first pair, in whatever way the save ends, the
second pair loads what it loaded before. -/
def Undisturbed (isalnum : Char → Bool) (l r l' r' : String) : Prop :=
  ∀ state io temp files cap,
    loadSessionAt isalnum cap l' r' (saveSessionAt isalnum l r state io temp files)
      = loadSessionAt isalnum cap l' r' files

theorem loadSessionAt_eq (cap : Nat) (l r : String) (files : Odict String SessionFile) :
    loadSessionAt isalnum cap l r files
      = loadSession cap (sessionFileAt files (pathOf isalnum l r)) := by
  rw [loadSessionAt, sessionPath_pathOf]
  rfl

/-- A save writes under its own path and under its temporary path. -/
theorem saveSessionAt_frame {l r path : String} (state : SessionState) (io : SaveIo)
    (temp : SessionFile) (files : Odict String SessionFile) (hne : path ≠ pathOf isalnum l r)
    (htemp : path ≠ tempPath (pathOf isalnum l r)) :
    sessionFileAt (saveSessionAt isalnum l r state io temp files) path
      = sessionFileAt files path := by
  rw [saveSessionAt, sessionPath_pathOf]
  dsimp only
  cases saveSession io ⟨state, sessionFileAt files (pathOf isalnum l r)⟩ with
  | ok u slot =>
      simp only [sessionFileAt]
      rw [Odict.get?_set_ne _ hne, Odict.get?_erase_ne _ htemp]
  | error e slot =>
      dsimp only
      split
      · rfl
      · simp only [sessionFileAt]
        rw [Odict.get?_set_ne _ htemp]

/-- What a first save writes is not what a missing file loads to. -/
theorem saveSessionAt_empty (l r : String) (state : SessionState) (temp : SessionFile) :
    sessionFileAt (saveSessionAt isalnum l r state .ok temp []) (pathOf isalnum l r)
      = .json (stateToDict { state with sessionVersion := state.sessionVersion + 1 }) := by
  rw [saveSessionAt, sessionPath_pathOf]
  have hsave : saveSession .ok ⟨state, .missing⟩ = .ok () ⟨{ state with
      sessionVersion := state.sessionVersion + 1 }, .json (stateToDict { state with
        sessionVersion := state.sessionVersion + 1 })⟩ := rfl
  have hmissing : sessionFileAt [] (pathOf isalnum l r) = .missing := rfl
  dsimp only
  rw [hmissing, hsave]
  simp only [sessionFileAt]
  rw [Odict.get?_set_self]
  rfl

theorem loadSession_json_ne_none (cap : Nat) (v : Json) :
    loadSession cap (.json v) ≠ .ok none := by
  intro h
  rw [loadSession] at h
  cases hd : stateFromDict cap v with
  | error e => rw [hd] at h; cases h
  | ok s => rw [hd] at h; cases h

/-- Under one path the second pair finds the file of the first. -/
theorem disturbed_of_path {l r l' r' : String} (h : pathOf isalnum l r = pathOf isalnum l' r') :
    ¬ Undisturbed isalnum l r l' r' := by
  intro hsame
  have hload := hsame (sampleState true) .ok .missing [] 1000
  rw [loadSessionAt_eq, loadSessionAt_eq, ← h, saveSessionAt_empty] at hload
  exact loadSession_json_ne_none _ _ hload

/-- Saving one session leaves the other alone exactly if their names make two
paths. -/
theorem undisturbed_iff (isalnum : Char → Bool) (l r l' r' : String) :
    Undisturbed isalnum l r l' r' ↔ ¬ Collide isalnum l r l' r' := by
  rw [← pathOf_eq_iff]
  constructor
  · intro h heq
    exact disturbed_of_path heq h
  · intro hne state io temp files cap
    rw [loadSessionAt_eq, loadSessionAt_eq, saveSessionAt_frame state io temp files
      (Ne.symm hne) (tempPath_ne_pathOf _ _ _).symm]

/-- `alice` has one file for `a.b` and `a_b`; and `a` with `b__c` has the file
of `a__b` with `c`. -/
theorem shared_file :
    ¬ Undisturbed Char.isAlphanum "alice" "a.b" "alice" "a_b" ∧
      ¬ Undisturbed Char.isAlphanum "a" "b__c" "a__b" "c" :=
  ⟨disturbed_of_path (by decide), disturbed_of_path (by decide)⟩

end GhostChat.Proofs
