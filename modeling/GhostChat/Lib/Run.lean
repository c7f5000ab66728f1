import Mathlib.Data.List.Basic

/-!
# Runs of a deterministic system

A system is a step function and a run is a list of actions. What an
environment promises is a relation between the state before a step and the
action it takes there; `Along` says that every step of a run keeps the
promise. `Along.counted` is the induction over runs this development uses,
`Along.invariant` is the same for an invariant that does not mention time, and
`runFrom_invariant` for one that needs no promise.
-/

namespace GhostChat.Lib

variable {S A : Type} {step : S → A → S} {R R' : S → A → Prop} {I : S → Prop}
  {s : S} {acts : List A}

/-- The state a run ends in. -/
def runFrom (step : S → A → S) : S → List A → S
  | s, [] => s
  | s, a :: acts => runFrom step (step s a) acts

theorem runFrom_append (s : S) (acts acts' : List A) :
    runFrom step s (acts ++ acts') = runFrom step (runFrom step s acts) acts' := by
  induction acts generalizing s with
  | nil => rfl
  | cons a acts ih => exact ih (step s a)

/-- Every step of the run is taken in a state where `R` allows it. -/
def Along (step : S → A → S) (R : S → A → Prop) : S → List A → Prop
  | _, [] => True
  | s, a :: acts => R s a ∧ Along step R (step s a) acts

instance Along.decidable [∀ s a, Decidable (R s a)] :
    ∀ (s : S) (acts : List A), Decidable (Along step R s acts)
  | _, [] => isTrue trivial
  | s, a :: acts =>
      have := Along.decidable (step s a) acts
      inferInstanceAs (Decidable (R s a ∧ Along step R (step s a) acts))

theorem Along.mono (h : ∀ s a, R s a → R' s a) (hrun : Along step R s acts) :
    Along step R' s acts := by
  induction acts generalizing s with
  | nil => trivial
  | cons a acts ih => exact ⟨h s a hrun.1, ih hrun.2⟩

theorem Along.and (h : Along step R s acts) (h' : Along step R' s acts) :
    Along step (fun s a => R s a ∧ R' s a) s acts := by
  induction acts generalizing s with
  | nil => trivial
  | cons a acts ih => exact ⟨⟨h.1, h'.1⟩, ih h.2 h'.2⟩

/-- A run in two parts. -/
theorem Along.split {acts' : List A} (h : Along step R s (acts ++ acts')) :
    Along step R s acts ∧ Along step R (runFrom step s acts) acts' := by
  induction acts generalizing s with
  | nil => exact ⟨trivial, h⟩
  | cons a acts ih =>
      obtain ⟨hinit, hrest⟩ := ih h.2
      exact ⟨⟨h.1, hinit⟩, hrest⟩

/-- A promise about the actions alone. -/
theorem Along.of_forall {Q : A → Prop} (h : ∀ a ∈ acts, Q a) :
    Along step (fun _ a => Q a) s acts := by
  induction acts generalizing s with
  | nil => trivial
  | cons a acts ih =>
      exact ⟨h a List.mem_cons_self, ih fun b hb => h b (List.mem_cons_of_mem a hb)⟩

/-- What one allowed step keeps, with the steps counted, a run keeps. -/
theorem Along.counted {I : Nat → S → Prop}
    (hstep : ∀ n s a, I n s → R s a → I (n + 1) (step s a)) {n : Nat}
    (hs : I n s) (hrun : Along step R s acts) :
    I (n + acts.length) (runFrom step s acts) := by
  induction acts generalizing n s with
  | nil => exact hs
  | cons a acts ih =>
      rw [List.length_cons, Nat.add_comm acts.length, ← Nat.add_assoc]
      exact ih (hstep n s a hs hrun.1) hrun.2

/-- What one allowed step keeps, a run keeps. -/
theorem Along.invariant (hstep : ∀ s a, I s → R s a → I (step s a))
    (hs : I s) (hrun : Along step R s acts) : I (runFrom step s acts) :=
  Along.counted (I := fun _ => I) (n := 0) (fun _ => hstep) hs hrun

/-- What every step keeps, a run keeps. -/
theorem runFrom_invariant (hstep : ∀ s a, I s → I (step s a)) (hs : I s) (acts : List A) :
    I (runFrom step s acts) :=
  Along.invariant (R := fun _ _ => True) (fun s a h _ => hstep s a h) hs
    (.of_forall fun _ _ => trivial)

/-- A log that every step only adds to is only added to by a run. -/
theorem runFrom_prefix {α : Type} (log : S → List α)
    (hstep : ∀ s a, log s <+: log (step s a)) (s : S) (acts : List A) :
    log s <+: log (runFrom step s acts) :=
  runFrom_invariant (I := fun s' => log s <+: log s') (fun s' a h => h.trans (hstep s' a))
    (List.prefix_refl _) acts

/-- Every step of a run does what the invariant and the promise together
allow it to do. -/
theorem Along.strengthen (hstep : ∀ s a, I s → R s a → I (step s a) ∧ R' s a)
    (hs : I s) (hrun : Along step R s acts) : Along step R' s acts := by
  induction acts generalizing s with
  | nil => trivial
  | cons a acts ih =>
      obtain ⟨hinv, ha⟩ := hstep s a hs hrun.1
      exact ⟨ha, ih hinv hrun.2⟩

/-- Two things said of every step of a promised run are the same, if they are
at every step up to which the second was true. -/
theorem Along.congr {Q : S → A → Prop} (hiff : ∀ s a, I s → R s a → (R' s a ↔ Q s a))
    (hinv : ∀ s a, I s → R s a → Q s a → I (step s a)) (hs : I s)
    (hrun : Along step R s acts) : Along step R' s acts ↔ Along step Q s acts := by
  induction acts generalizing s with
  | nil => exact Iff.rfl
  | cons a acts ih =>
      have htail := fun hq => ih (hinv s a hs hrun.1 hq) hrun.2
      constructor
      · rintro ⟨hr, hrest⟩
        have hq := (hiff s a hs hrun.1).mp hr
        exact ⟨hq, (htail hq).mp hrest⟩
      · rintro ⟨hq, hrest⟩
        exact ⟨(hiff s a hs hrun.1).mpr hq, (htail hq).mpr hrest⟩

/-- A property that a step keeps exactly where it is allowed holds at the end
of a promised run exactly if every step was. -/
theorem Along.iff_of_step {P : S → A → Prop} {G : S → Prop}
    (hinv : ∀ s a, I s → P s a → I (step s a))
    (hstep : ∀ s a, I s → P s a → (G (step s a) ↔ G s ∧ R s a)) (hs : I s)
    (hrun : Along step P s acts) :
    G (runFrom step s acts) ↔ G s ∧ Along step R s acts := by
  induction acts generalizing s with
  | nil => exact (and_iff_left trivial).symm
  | cons a acts ih =>
      rw [runFrom, ih (hinv s a hs hrun.1) hrun.2, hstep s a hs hrun.1, and_assoc]
      rfl

/-- The same for a property asked of every state on the way. -/
theorem Along.always_iff {Good : S → Prop} (hinv : ∀ s a, I s → I (step s a))
    (hstep : ∀ s a, I s → Good s → (Good (step s a) ↔ R s a)) (hs : I s) (hgood : Good s) :
    (∀ n, Good (runFrom step s (acts.take n))) ↔ Along step R s acts := by
  induction acts generalizing s with
  | nil =>
      refine iff_of_true (fun n => ?_) trivial
      rw [List.take_nil]
      exact hgood
  | cons a acts ih =>
      constructor
      · intro h
        have ha : Good (step s a) := h 1
        exact ⟨(hstep s a hs hgood).mp ha, (ih (hinv s a hs) ha).mp fun n => h (n + 1)⟩
      · rintro ⟨ha, hrest⟩ n
        have hgood' := (hstep s a hs hgood).mpr ha
        cases n with
        | zero => exact hgood
        | succ n => exact (ih (hinv s a hs) hgood').mpr hrest n

/-! ## Reading logs -/

/-- What is at a place of a list stays there when the list grows. -/
theorem getElem?_stays {α : Type} {l l' : List α} {n : Nat} {x : α} (hl : l <+: l')
    (hx : l[n]? = some x) : l'[n]? = some x := by
  obtain ⟨t, rfl⟩ := hl
  obtain ⟨hn, -⟩ := List.getElem?_eq_some_iff.mp hx
  rw [List.getElem?_append_left hn]
  exact hx

/-- An entry of a log with one more entry at its end is an old one or the new
one. -/
theorem getElem?_concat_cases {α : Type} {l : List α} {a x : α} {n : Nat}
    (h : (l ++ [a])[n]? = some x) : l[n]? = some x ∨ (n = l.length ∧ x = a) := by
  rcases Nat.lt_trichotomy n l.length with hn | rfl | hn
  · rw [List.getElem?_append_left hn] at h
    exact Or.inl h
  · rw [List.getElem?_concat_length] at h
    exact Or.inr ⟨rfl, (Option.some.inj h).symm⟩
  · rw [List.getElem?_append_right (Nat.le_of_lt hn),
      List.getElem?_eq_none (Nat.sub_pos_of_lt hn)] at h
    cases h

/-- In parallel lists every entry of the first has one beside it. -/
theorem forall₂_mem_left {α β : Type} {R : α → β → Prop} {l : List α} {l' : List β}
    (h : List.Forall₂ R l l') {a : α} (ha : a ∈ l) : ∃ b ∈ l', R a b := by
  induction h with
  | nil => cases ha
  | @cons a' b' l l' hab _ ih =>
      rcases List.mem_cons.mp ha with rfl | ha
      · exact ⟨b', List.mem_cons_self, hab⟩
      · obtain ⟨b, hb, h⟩ := ih ha
        exact ⟨b, List.mem_cons_of_mem _ hb, h⟩

/-- Where the entries with a property have one and the same entry beside them,
and nothing stands there twice, there is at most one. -/
theorem pairwise_of_beside {α β : Type} {R : α → β → Prop} {l : List α} {l' : List β}
    (h : List.Forall₂ R l l') (hnodup : l'.Nodup) {Q : α → Prop} {b₀ : β}
    (hQ : ∀ a b, R a b → Q a → b = b₀) : l.Pairwise fun a a' => ¬ (Q a ∧ Q a') := by
  induction h with
  | nil => exact .nil
  | @cons a b l l' hab htail ih =>
      obtain ⟨hnot, hnodup⟩ := List.nodup_cons.mp hnodup
      refine List.pairwise_cons.mpr ⟨?_, ih hnodup⟩
      intro a' ha' ⟨hq, hq'⟩
      obtain ⟨b', hb', hab'⟩ := forall₂_mem_left htail ha'
      rw [hQ a b hab hq, ← hQ a' b' hab' hq'] at hnot
      exact hnot hb'

/-- Entries that show one value, in a log where no value is shown twice, are
one entry. -/
theorem filterMap_nodup_inj {α β : Type} {f : α → Option β} {l : List α}
    (h : (l.filterMap f).Nodup) {a b : α} (ha : a ∈ l) (hb : b ∈ l) {y : β}
    (hfa : f a = some y) (hfb : f b = some y) : a = b := by
  induction l with
  | nil => cases ha
  | cons e l ih =>
      have hhead : ∀ {x x' : α}, e = x → x' ∈ l → f x = some y → f x' = some y → False := by
        rintro x x' rfl hx' hfx hfx'
        rw [List.filterMap_cons_some hfx, List.nodup_cons] at h
        exact h.1 (List.mem_filterMap.mpr ⟨x', hx', hfx'⟩)
      have htail : (l.filterMap f).Nodup := by
        cases hfe : f e with
        | none => rwa [List.filterMap_cons_none hfe] at h
        | some z =>
            rw [List.filterMap_cons_some hfe, List.nodup_cons] at h
            exact h.2
      rcases List.mem_cons.mp ha with hae | hal
      · rcases List.mem_cons.mp hb with hbe | hbl
        · rw [hae, hbe]
        · exact (hhead hae.symm hbl hfa hfb).elim
      · rcases List.mem_cons.mp hb with hbe | hbl
        · exact (hhead hbe.symm hal hfb hfa).elim
        · exact ih htail hal hbl

end GhostChat.Lib
