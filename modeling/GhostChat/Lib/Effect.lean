import Mathlib.Tactic.Common

/-!
# Calls that may raise and keep what they wrote

A method of a mutable object has two ways out, and both leave the object
behind: what was assigned before an exception stays assigned. `EStateM` is
exactly that shape, a result of either kind paired with the state at that
moment, so a method body is a `do` block and the partial update of a raising
call is visible in the model instead of being rolled back by it.

This file is the reasoning that goes with it. The `_apply` equations run a
body symbolically, one bind at a time; the inversions peel a run apart from
its end; and `Keeps` is the invariant rule, stated for both ways out at once,
because an invariant that holds only after successful calls says nothing
about the next call of an object that has just raised.
-/

namespace GhostChat.Lib.Effect

variable {ε σ τ α β : Type}

/-- The state a call leaves behind, returned or raised. -/
def after : EStateM.Result ε σ α → σ
  | .ok _ s => s
  | .error _ s => s

/-- The returned value, if the call returned. -/
def value? : EStateM.Result ε σ α → Option α
  | .ok a _ => some a
  | .error _ _ => none

@[simp] theorem after_ok (a : α) (s : σ) :
    after (.ok a s : EStateM.Result ε σ α) = s := rfl

@[simp] theorem after_error (e : ε) (s : σ) :
    after (.error e s : EStateM.Result ε σ α) = s := rfl

@[simp] theorem value?_ok (a : α) (s : σ) :
    value? (.ok a s : EStateM.Result ε σ α) = some a := rfl

@[simp] theorem value?_error (e : ε) (s : σ) :
    value? (.error e s : EStateM.Result ε σ α) = none := rfl

/-- A pure computation that may fail, run inside a call: a failure raises and
touches nothing. -/
def lift : Except ε α → EStateM ε σ α
  | .ok a => pure a
  | .error e => throw e

/-- A call on a component, run on the object that holds it. What the call
wrote to the component is written back on both ways out. -/
def zoom (get : σ → τ) (put : τ → σ → σ) (x : EStateM ε τ α) :
    EStateM ε σ α := fun s =>
  match x (get s) with
  | .ok a t => .ok a (put t s)
  | .error e t => .error e (put t s)

/-! ## Running a body -/

@[simp] theorem pure_apply (a : α) (s : σ) :
    (pure a : EStateM ε σ α) s = .ok a s := rfl

@[simp] theorem bind_apply (x : EStateM ε σ α) (f : α → EStateM ε σ β) (s : σ) :
    (x >>= f) s = match x s with
      | .ok a s' => f a s'
      | .error e s' => .error e s' := rfl

@[simp] theorem map_apply (f : α → β) (x : EStateM ε σ α) (s : σ) :
    (f <$> x) s = match x s with
      | .ok a s' => .ok (f a) s'
      | .error e s' => .error e s' := rfl

@[simp] theorem get_apply (s : σ) : (get : EStateM ε σ σ) s = .ok s s := rfl

@[simp] theorem modify_apply (f : σ → σ) (s : σ) :
    (modify f : EStateM ε σ PUnit) s = .ok () (f s) := rfl

@[simp] theorem throw_apply (e : ε) (s : σ) :
    (throw e : EStateM ε σ α) s = .error e s := rfl

@[simp] theorem ite_run (p : Prop) [Decidable p] (x y : EStateM ε σ α) (s : σ) :
    (if p then x else y) s = if p then x s else y s := by
  split <;> rfl

@[simp] theorem lift_ok (a : α) (s : σ) :
    (lift (.ok a) : EStateM ε σ α) s = .ok a s := rfl

@[simp] theorem lift_error (e : ε) (s : σ) :
    (lift (.error e) : EStateM ε σ α) s = .error e s := rfl

/-! ## Peeling a run apart -/

/-- A sequence returned because both halves did. -/
theorem bind_ok {x : EStateM ε σ α} {f : α → EStateM ε σ β} {s s' : σ} {b : β}
    (h : (x >>= f) s = .ok b s') :
    ∃ a s₁, x s = .ok a s₁ ∧ f a s₁ = .ok b s' := by
  rw [bind_apply] at h
  cases hx : x s with
  | ok a s₁ => rw [hx] at h; exact ⟨a, s₁, rfl, h⟩
  | error e s₁ => rw [hx] at h; cases h

/-- A check that raises was passed. -/
theorem guard_ok {p : Prop} [Decidable p] {e : ε} {f : α → EStateM ε σ β} {x : EStateM ε σ β}
    {s s' : σ} {b : β} (h : (if p then (throw e : EStateM ε σ α) >>= f else x) s = .ok b s') :
    ¬ p ∧ x s = .ok b s' := by
  by_cases hp : p
  · rw [if_pos hp] at h
    cases h
  · rw [if_neg hp] at h
    exact ⟨hp, h⟩

/-- A pure step in front of a sequence. -/
theorem lift_bind_ok {x : Except ε α} {f : α → EStateM ε σ β} {s s' : σ} {b : β}
    (h : ((lift x : EStateM ε σ α) >>= f) s = .ok b s') :
    ∃ a, x = .ok a ∧ f a s = .ok b s' := by
  cases x with
  | ok a => exact ⟨a, rfl, h⟩
  | error e => cases h

theorem ok_of_lift_ok {x : Except ε α} {s s' : σ} {a : α}
    (h : (lift x : EStateM ε σ α) s = .ok a s') : x = .ok a ∧ s' = s := by
  cases x with
  | ok b => cases h; exact ⟨rfl, rfl⟩
  | error e => cases h

theorem map_ok {f : α → β} {x : EStateM ε σ α} {s s' : σ} {b : β}
    (h : (f <$> x) s = .ok b s') : ∃ a, x s = .ok a s' ∧ f a = b := by
  rw [map_apply] at h
  cases hx : x s with
  | ok a s₁ => rw [hx] at h; cases h; exact ⟨a, rfl, rfl⟩
  | error e s₁ => rw [hx] at h; cases h

/-- The same for a pure computation. -/
theorem except_bind_ok {x : Except ε α} {f : α → Except ε β} {b : β}
    (h : (x >>= f) = .ok b) : ∃ a, x = .ok a ∧ f a = .ok b := by
  cases x with
  | ok a => exact ⟨a, rfl, h⟩
  | error e => cases h

/-- A check that raises was passed. -/
theorem except_guard_ok {p : Prop} [Decidable p] {e : ε} {f : α → Except ε β} {x : Except ε β}
    {b : β} (h : (if p then (throw e : Except ε α) >>= f else x) = .ok b) : ¬ p ∧ x = .ok b := by
  by_cases hp : p
  · rw [if_pos hp] at h
    cases h
  · rw [if_neg hp] at h
    exact ⟨hp, h⟩

theorem except_map_ok {f : α → β} {x : Except ε α} {b : β}
    (h : (f <$> x) = .ok b) : ∃ a, x = .ok a ∧ f a = b := by
  cases x with
  | ok a => cases h; exact ⟨a, rfl, rfl⟩
  | error e => cases h

@[simp] theorem except_ok_bind (a : α) (f : α → Except ε β) :
    ((.ok a : Except ε α) >>= f) = f a := rfl

/-! ## Raising with nothing written -/

/-- A pure step in front of a sequence raises as it is, or else the rest
does. -/
theorem lift_bind_raises {x : Except ε α} {f : α → EStateM ε σ β} {s : σ}
    (h : ∀ a, x = .ok a → ∃ e, f a s = .error e s) :
    ∃ e, ((lift x : EStateM ε σ α) >>= f) s = .error e s := by
  cases x with
  | ok a => exact h a rfl
  | error e => exact ⟨e, rfl⟩

theorem guard_raises {p : Prop} [Decidable p] {e : ε} {f : α → EStateM ε σ β} {x : EStateM ε σ β}
    {s : σ} (h : ¬ p → ∃ e, x s = .error e s) :
    ∃ e', (if p then (throw e : EStateM ε σ α) >>= f else x) s = .error e' s := by
  by_cases hp : p
  · rw [if_pos hp]
    exact ⟨e, rfl⟩
  · rw [if_neg hp]
    exact h hp

/-! ## The invariant rule -/

/-- `x` keeps `I`: from a state that has it, the state left behind has it,
whichever way the call ends. -/
def Keeps (I : σ → Prop) (x : EStateM ε σ α) : Prop :=
  ∀ s, I s → I (after (x s))

variable {I : σ → Prop}

theorem keeps_pure (a : α) : Keeps I (pure a : EStateM ε σ α) := fun _ h => h

theorem keeps_throw (e : ε) : Keeps I (throw e : EStateM ε σ α) := fun _ h => h

theorem keeps_lift (x : Except ε α) : Keeps I (lift x : EStateM ε σ α) := by
  cases x with
  | ok a => exact keeps_pure a
  | error e => exact keeps_throw e

theorem keeps_modify {f : σ → σ} (h : ∀ s, I s → I (f s)) :
    Keeps I (modify f : EStateM ε σ PUnit) := h

/-- A call in two phases: the first keeps what the second starts from, and
where it raises that is as good as the end. -/
theorem after_bind {J : σ → Prop} {x : EStateM ε σ α} {f : α → EStateM ε σ β}
    (hx : Keeps I x) (hIJ : ∀ s, I s → J s) (hf : ∀ a s, I s → J (after (f a s)))
    {s : σ} (hs : I s) : J (after ((x >>= f) s)) := by
  have h₁ := hx s hs
  rw [bind_apply]
  cases hr : x s with
  | ok a s₁ => rw [hr] at h₁; exact hf a s₁ h₁
  | error e s₁ => rw [hr] at h₁; exact hIJ s₁ h₁

theorem keeps_bind {x : EStateM ε σ α} {f : α → EStateM ε σ β}
    (hx : Keeps I x) (hf : ∀ a, Keeps I (f a)) : Keeps I (x >>= f) :=
  fun _ hs => after_bind hx (fun _ h => h) hf hs

/-- A check that raises, in front of the rest. -/
theorem keeps_guard {p : Prop} [Decidable p] {e : ε} {f : α → EStateM ε σ β} {x : EStateM ε σ β}
    (hx : Keeps I x) : Keeps I (if p then (throw e : EStateM ε σ α) >>= f else x) := by
  split
  · exact fun _ hs => hs
  · exact hx

/-- Reading the state and going on: the continuation is only ever asked about
the state it was handed. -/
theorem keeps_get_bind {f : σ → EStateM ε σ β}
    (hf : ∀ s, I s → I (after (f s s))) : Keeps I (get >>= f) :=
  fun s hs => hf s hs

end GhostChat.Lib.Effect
