import GhostChat.Lib.Effect
import Mathlib.Data.List.Forall2

/-!
# Parsers: what they raise, and what they take

Two things are said of a parser here. `Ends Q E` is about one run of a
computation that may fail: what it returns has `Q` and what it raises has `E`.
A parser is a long sequence of such steps, and the rules follow the sequence,
so a proof about the whole is one line for each step of it.

`Reads r w` is about a parser of a byte format as a function: `r` takes off
the front of its input the encodings `w` describes, and nothing else. Both
directions are in it, so a format that is read by `r` has each value written
in one way only, and the rules compose readers as a format composes fields: a
length and as many bytes, a field and another field, a value and the end of
the input.

Where a parser does raise what it should not, `Fate` says for each field of
the input which of the three ways its reading goes, and `Sound` that the first
field to stop the parser stops it the right way.
-/

namespace GhostChat.Lib

open Effect

variable {ε α β γ : Type}

/-! ## Ways to end -/

/-- What is returned has `Q`, and what is raised has `E`. -/
def Ends (Q : α → Prop) (E : ε → Prop) : Except ε α → Prop
  | .ok v => Q v
  | .error e => E e

section Ends

variable {Q R : α → Prop} {S : β → Prop} {E F : ε → Prop} {x : Except ε α}

theorem ends_iff :
    Ends Q E x ↔ (∃ e, x = .error e ∧ E e) ∨ ∃ v, x = .ok v ∧ Q v := by
  cases x with
  | ok v => simp [Ends]
  | error e => simp [Ends]

theorem Ends.ok {v : α} (h : Ends Q E x) (hx : x = .ok v) : Q v := by
  rw [hx] at h
  exact h

theorem Ends.error {e : ε} (h : Ends Q E x) (hx : x = .error e) : E e := by
  rw [hx] at h
  exact h

theorem Ends.mono (h : Ends Q E x) (hQ : ∀ v, Q v → R v) (hE : ∀ e, E e → F e) :
    Ends R F x := by
  cases x with
  | ok v => exact hQ v h
  | error e => exact hE e h

theorem Ends.any : Ends (fun _ => True) (fun _ => True) x := by
  cases x <;> trivial

/-- One step, and then the rest with what it returned. -/
theorem Ends.bind {f : α → Except ε β} (h : Ends Q E x) (hf : ∀ v, Q v → Ends S E (f v)) :
    Ends S E (x >>= f) := by
  cases x with
  | ok v => exact hf v h
  | error e => exact h

/-- A check that raises, in front of the rest. -/
theorem Ends.guard {p : Prop} [Decidable p] {e : ε} {f : α → Except ε β} {y : Except ε β}
    (he : p → E e) (hy : ¬ p → Ends S E y) :
    Ends S E (if p then (throw e : Except ε α) >>= f else y) := by
  by_cases hp : p
  · rw [if_pos hp]
    exact he hp
  · rw [if_neg hp]
    exact hy hp

/-- A loop that keeps what `Q` says of its variable. -/
theorem Ends.foldlM {f : α → γ → Except ε α} {items : List γ} {v : α} (hv : Q v)
    (hf : ∀ v item, Q v → Ends Q E (f v item)) : Ends Q E (items.foldlM f v) := by
  induction items generalizing v with
  | nil => exact hv
  | cons item items ih =>
      rw [List.foldlM_cons]
      exact (hf v item hv).bind fun v' hv' => ih hv'

end Ends

/-! ## Items one by one -/

section Items

variable {f : γ → Except ε α} {items : List γ} {vs : List α}

theorem mapM_ok_iff :
    items.mapM f = .ok vs ↔ List.Forall₂ (fun item v => f item = .ok v) items vs := by
  induction items generalizing vs with
  | nil =>
      rw [List.mapM_nil, List.forall₂_nil_left_iff]
      constructor
      · intro h
        cases h
        rfl
      · rintro rfl
        rfl
  | cons item items ih =>
      rw [List.mapM_cons, List.forall₂_cons_left_iff]
      constructor
      · intro h
        obtain ⟨v, hv, h⟩ := except_bind_ok h
        obtain ⟨rest, hrest, h⟩ := except_bind_ok h
        cases h
        exact ⟨v, rest, hv, ih.mp hrest, rfl⟩
      · rintro ⟨v, rest, hv, hrest, rfl⟩
        rw [hv, ih.mpr hrest]
        rfl

/-- A loop that reads each item and puts it somewhere. -/
theorem foldlM_ok_iff {g : β → α → β} {acc w : β} :
    items.foldlM (fun acc item => f item >>= fun v => pure (g acc v)) acc = .ok w ↔
      ∃ vs, List.Forall₂ (fun item v => f item = .ok v) items vs ∧ vs.foldl g acc = w := by
  induction items generalizing acc with
  | nil =>
      rw [List.foldlM_nil]
      constructor
      · intro h
        cases h
        exact ⟨[], .nil, rfl⟩
      · rintro ⟨vs, hvs, rfl⟩
        cases hvs
        rfl
  | cons item items ih =>
      rw [List.foldlM_cons]
      constructor
      · intro h
        obtain ⟨acc', hacc, h⟩ := except_bind_ok h
        obtain ⟨v, hv, hacc⟩ := except_bind_ok hacc
        cases hacc
        obtain ⟨vs, hvs, hw⟩ := ih.mp h
        exact ⟨v :: vs, .cons hv hvs, hw⟩
      · rintro ⟨vs, hvs, rfl⟩
        cases hvs with
        | cons hv hrest =>
            rw [hv]
            exact ih.mpr ⟨_, hrest, rfl⟩

end Items

/-! ## What becomes of each field -/

/-- What reading one field of an input comes to. The reader goes on, or it
refuses the input as it says it does, or something else is raised. -/
inductive Fate where
  | passes
  | refused
  | escapes
  deriving DecidableEq

/-- The first field that does not pass, if there is one, is refused. -/
def Sound : List Fate → Prop
  | .passes :: rest => Sound rest
  | .escapes :: _ => False
  | _ => True

/-- What `x` comes to, for a reader that goes on with a `good` value, and of
which every error in `E` counts as a refusal. -/
def Comes (good : α → Prop) (E : ε → Prop) (x : Except ε α) : Fate → Prop
  | .passes => ∃ v, x = .ok v ∧ good v
  | .refused => Ends (fun v => ¬ good v) E x
  | .escapes => ∃ e, x = .error e ∧ ¬ E e

section Fate

variable {Q : β → Prop} {E F : ε → Prop} {good : α → Prop} {x : Except ε α} {fate : Fate}
  {fates : List Fate} {f : α → Except ε β}

/-- One field, and then the rest: what the rest has to do for a value that is
not good is to refuse it. -/
theorem Comes.cons (h : Comes good E x fate)
    (hgood : ∀ v, x = .ok v → good v → (Ends Q E (f v) ↔ Sound fates))
    (hbad : ∀ v, ¬ good v → Ends Q E (f v)) :
    Ends Q E (x >>= f) ↔ Sound (fate :: fates) := by
  cases fate with
  | passes =>
      obtain ⟨v, rfl, hv⟩ := h
      exact hgood v rfl hv
  | refused => exact iff_of_true (h.bind hbad) trivial
  | escapes =>
      obtain ⟨e, rfl, he⟩ := h
      exact iff_of_false he not_false

/-- One field that has no bad values. -/
theorem Comes.cons_any (h : Comes (fun _ => True) E x fate)
    (hnext : ∀ v, x = .ok v → (Ends Q E (f v) ↔ Sound fates)) :
    Ends Q E (x >>= f) ↔ Sound (fate :: fates) :=
  h.cons (fun v hv _ => hnext v hv) fun _ hv => absurd trivial hv

/-- Errors that are raised as others, in front of a rest that keeps to its
errors. -/
theorem ends_mapError_iff {r : ε → ε} (hr : ∀ e, E (r e) ↔ F e)
    (hf : ∀ v, x = .ok v → Ends Q E (f v)) :
    Ends Q E (x.mapError r >>= f) ↔ Ends (fun _ => True) F x := by
  cases x with
  | ok v => exact iff_of_true (hf v rfl) trivial
  | error e => exact hr e

end Fate

/-! ## Readers of a format -/

/-- `r` takes encodings off the front of its input: whatever `w` says encodes
`x` is read as `x`, and whatever is read as `x` is that. -/
structure Reads (r : List β → Except ε (α × List β)) (w : α → List β → Prop) : Prop where
  complete : ∀ {x b} (rest : List β), w x b → r (b ++ rest) = .ok (x, rest)
  sound : ∀ {data x rest}, r data = .ok (x, rest) → ∃ b, w x b ∧ data = b ++ rest

theorem Reads.congr {r : List β → Except ε (α × List β)} {w w' : α → List β → Prop}
    (h : Reads r w) (hw : ∀ x b, w x b ↔ w' x b) : Reads r w' where
  complete := fun rest hx => h.complete rest ((hw _ _).mpr hx)
  sound := by
    intro data x rest hread
    obtain ⟨b, hb, hdata⟩ := h.sound hread
    exact ⟨b, (hw x b).mp hb, hdata⟩

/-- Nothing is read, and `x` is the value. -/
theorem Reads.pure (x : α) :
    Reads (fun data => (.ok (x, data) : Except ε (α × List β))) fun y b => y = x ∧ b = [] where
  complete := by
    rintro y b rest ⟨rfl, rfl⟩
    rfl
  sound := by
    intro data y rest h
    cases h
    exact ⟨[], ⟨rfl, rfl⟩, rfl⟩

/-- One field, and then the rest of the format, which may depend on it. -/
theorem Reads.bind {r : List β → Except ε (α × List β)} {w : α → List β → Prop}
    {r' : α → List β → Except ε (γ × List β)} {w' : α → γ → List β → Prop}
    (h : Reads r w) (h' : ∀ x, Reads (r' x) (w' x)) :
    Reads (fun data => r data >>= fun p => r' p.1 p.2)
      (fun y b => ∃ x b₁ b₂, w x b₁ ∧ w' x y b₂ ∧ b = b₁ ++ b₂) where
  complete := by
    rintro y b rest ⟨x, b₁, b₂, h₁, h₂, rfl⟩
    have hr : r (b₁ ++ (b₂ ++ rest)) = .ok (x, b₂ ++ rest) := h.complete (b₂ ++ rest) h₁
    rw [List.append_assoc, hr]
    exact (h' x).complete rest h₂
  sound := by
    intro data y rest hread
    cases hr : r data with
    | error e =>
        rw [hr] at hread
        cases hread
    | ok p =>
        obtain ⟨x, tail⟩ := p
        rw [hr] at hread
        obtain ⟨b₁, h₁, rfl⟩ := h.sound hr
        obtain ⟨b₂, h₂, rfl⟩ := (h' x).sound hread
        exact ⟨b₁ ++ b₂, ⟨x, b₁, b₂, h₁, h₂, rfl⟩, (List.append_assoc b₁ b₂ rest).symm⟩

/-- Up to the end of the input. -/
theorem Reads.whole {r : List β → Except ε (α × List β)} {w : α → List β → Prop}
    (h : Reads r w) {data : List β} {x : α} : r data = .ok (x, []) ↔ w x data := by
  constructor
  · intro hread
    obtain ⟨b, hb, rfl⟩ := h.sound hread
    rwa [List.append_nil]
  · intro hw
    have hread := h.complete [] hw
    rwa [List.append_nil] at hread

end GhostChat.Lib
