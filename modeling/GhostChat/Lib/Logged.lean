import GhostChat.Lib.Effect

/-!
# A method and its counting copy

How often a method does something is not part of its result. The counting
copy of a method is the same body over a state with a log beside it, in which
every occurrence of the thing counted leaves a note. `Copies` says that the
copy is the method once the log is forgotten, and goes through a body bind by
bind. `Notes` is a triple: from a state that has `I` at most `n` notes are
written, all of them `Q`, and a call that returns ends in a state that has
`J`. Only the returning end needs a postcondition, because nothing of the body
runs after the raising one; the bound on the notes is for both.
-/

namespace GhostChat.Lib.Effect

variable {ε σ ι α β : Type}

/-- Write a note. -/
def note (e : ι) : EStateM ε (σ × List ι) Unit := modify fun p => (p.1, e :: p.2)

/-- A call that writes none. -/
def quietly (x : EStateM ε σ α) : EStateM ε (σ × List ι) α :=
  zoom (·.1) (fun s p => (s, p.2)) x

/-- The result without its log. -/
def forget : EStateM.Result ε (σ × List ι) α → EStateM.Result ε σ α
  | .ok a p => .ok a p.1
  | .error e p => .error e p.1

/-- `x` is `y` with notes. -/
def Copies (x : EStateM ε (σ × List ι) α) (y : EStateM ε σ α) : Prop :=
  ∀ p, forget (x p) = y p.1

/-! ## Copies -/

theorem copies_quietly (x : EStateM ε σ α) :
    Copies (quietly x : EStateM ε (σ × List ι) α) x := by
  intro p
  rw [quietly, zoom]
  cases x p.1 <;> rfl

theorem copies_pure (a : α) : Copies (pure a : EStateM ε (σ × List ι) α) (pure a) :=
  fun _ => rfl

theorem copies_bind {x : EStateM ε (σ × List ι) α} {y : EStateM ε σ α}
    {f : α → EStateM ε (σ × List ι) β} {g : α → EStateM ε σ β} (h : Copies x y)
    (hf : ∀ a, Copies (f a) (g a)) : Copies (x >>= f) (y >>= g) := by
  intro p
  have hp := h p
  rw [bind_apply, bind_apply, ← hp]
  cases x p with
  | ok a p' => exact hf a p'
  | error e p' => rfl

theorem copies_ite {p : Prop} [Decidable p] {x x' : EStateM ε (σ × List ι) α}
    {y y' : EStateM ε σ α} (h : Copies x y) (h' : Copies x' y') :
    Copies (if p then x else x') (if p then y else y') := by
  split
  · exact h
  · exact h'

/-- A check that raises, in front of the rest. -/
theorem copies_guard {p : Prop} [Decidable p] {e : ε}
    {f : α → EStateM ε (σ × List ι) β} {g : α → EStateM ε σ β}
    {x : EStateM ε (σ × List ι) β} {y : EStateM ε σ β} (h : Copies x y) :
    Copies (if p then (throw e : EStateM ε (σ × List ι) α) >>= f else x)
      (if p then (throw e : EStateM ε σ α) >>= g else y) := by
  split
  · exact fun _ => rfl
  · exact h

/-- What the copy returns, the method returns. -/
theorem Copies.ok {x : EStateM ε (σ × List ι) α} {y : EStateM ε σ α} (h : Copies x y)
    {p p' : σ × List ι} {a : α} (hx : x p = .ok a p') : y p.1 = .ok a p'.1 := by
  rw [← h p, hx]
  rfl

/-! ## Notes -/

/-- Started where `I` holds, `x` writes at most `n` notes, all of them `Q`,
and `J` holds where it returns. -/
def Notes (I : σ → Prop) (n : Nat) (Q : ι → Prop) (J : α → σ → Prop)
    (x : EStateM ε (σ × List ι) α) : Prop :=
  ∀ s l, I s →
    (∃ new, (after (x (s, l))).2 = new ++ l ∧ new.length ≤ n ∧ ∀ e ∈ new, Q e) ∧
    ∀ a p, x (s, l) = .ok a p → J a p.1

variable {I I' : σ → Prop} {Q : ι → Prop} {n m : Nat} {J J' : α → σ → Prop}
  {J₂ : β → σ → Prop}

theorem Notes.mono {x : EStateM ε (σ × List ι) α} (h : Notes I n Q J x)
    (hI : ∀ s, I' s → I s) (hn : n ≤ m) (hJ : ∀ a s, J a s → J' a s) :
    Notes I' m Q J' x := by
  intro s l hs
  obtain ⟨⟨new, hnew, hlen, hQ⟩, hret⟩ := h s l (hI s hs)
  exact ⟨⟨new, hnew, Nat.le_trans hlen hn, hQ⟩, fun a p ha => hJ a p.1 (hret a p ha)⟩

theorem notes_quietly {x : EStateM ε σ α} (h : ∀ s a s', I s → x s = .ok a s' → J a s') :
    Notes I 0 Q J (quietly x) := by
  intro s l hs
  have hcopy : Copies (quietly x : EStateM ε (σ × List ι) α) x := copies_quietly x
  refine ⟨⟨[], ?_, Nat.le_refl _, fun e he => absurd he List.not_mem_nil⟩,
    fun a p ha => h s a p.1 hs (hcopy.ok ha)⟩
  rw [quietly, zoom]
  cases x s <;> rfl

theorem notes_pure {a : α} (h : ∀ s, I s → J a s) :
    Notes I 0 Q J (pure a : EStateM ε (σ × List ι) α) := by
  intro s l hs
  refine ⟨⟨[], rfl, Nat.le_refl _, fun e he => absurd he List.not_mem_nil⟩, ?_⟩
  intro a' p ha
  cases ha
  exact h s hs

theorem notes_throw (e : ε) : Notes I 0 Q J (throw e : EStateM ε (σ × List ι) α) := by
  intro s l hs
  refine ⟨⟨[], rfl, Nat.le_refl _, fun e he => absurd he List.not_mem_nil⟩, ?_⟩
  intro a p ha
  cases ha

theorem notes_note {e : ι} (he : Q e) :
    Notes I 1 Q (fun _ => I) (note e : EStateM ε (σ × List ι) Unit) := by
  intro s l hs
  refine ⟨⟨[e], rfl, Nat.le_refl _, fun e' he' => ?_⟩, ?_⟩
  · rw [List.mem_singleton.mp he']
    exact he
  · intro a p ha
    cases ha
    exact hs

/-- Two phases write what each of them writes. -/
theorem notes_bind {x : EStateM ε (σ × List ι) α} {f : α → EStateM ε (σ × List ι) β}
    (hx : Notes I n Q J x) (hf : ∀ a, Notes (J a) m Q J₂ (f a)) :
    Notes I (n + m) Q J₂ (x >>= f) := by
  intro s l hs
  obtain ⟨⟨new, hnew, hlen, hQ⟩, hret⟩ := hx s l hs
  rw [bind_apply]
  cases hr : x (s, l) with
  | error e p =>
      rw [hr] at hnew
      refine ⟨⟨new, hnew, by omega, hQ⟩, ?_⟩
      intro a p ha
      cases ha
  | ok a p =>
      rw [hr] at hnew
      obtain ⟨⟨new', hnew', hlen', hQ'⟩, hret'⟩ := hf a p.1 p.2 (hret a p hr)
      refine ⟨⟨new' ++ new, ?_, ?_, ?_⟩, hret'⟩
      · show (after (f a (p.1, p.2))).2 = _
        rw [hnew', List.append_assoc]
        exact congrArg (new' ++ ·) hnew
      · rw [List.length_append]
        omega
      · intro e he
        rcases List.mem_append.mp he with he | he
        · exact hQ' e he
        · exact hQ e he

/-- A phase that writes none, in front of the rest. -/
theorem notes_quietly_bind {x : EStateM ε σ α} {f : α → EStateM ε (σ × List ι) β}
    (hx : ∀ s a s', I s → x s = .ok a s' → J a s') (hf : ∀ a, Notes (J a) n Q J₂ (f a)) :
    Notes I n Q J₂ (quietly x >>= f) := by
  have h := notes_bind (notes_quietly hx) hf
  rwa [Nat.zero_add] at h

/-- Reading the state and going on. -/
theorem notes_get_bind {f : σ → EStateM ε (σ × List ι) β}
    (hf : ∀ s₀, I s₀ → Notes (fun s => s = s₀) n Q J₂ (f s₀)) :
    Notes I n Q J₂ (quietly get >>= f) := by
  intro s l hs
  exact hf s hs s l rfl

theorem notes_ite {p : Prop} [Decidable p] {x y : EStateM ε (σ × List ι) α}
    (h : p → Notes I n Q J x) (h' : ¬ p → Notes I n Q J y) :
    Notes I n Q J (if p then x else y) := by
  split
  · next hp => exact h hp
  · next hp => exact h' hp

/-- A check that raises, in front of the rest. -/
theorem notes_guard {p : Prop} [Decidable p] {e : ε} {f : α → EStateM ε (σ × List ι) β}
    {x : EStateM ε (σ × List ι) β} (h : ¬ p → Notes I n Q J₂ x) :
    Notes I n Q J₂ (if p then (throw e : EStateM ε (σ × List ι) α) >>= f else x) := by
  refine notes_ite (fun _ => ?_) h
  exact (notes_throw e).mono (fun _ hs => hs) (Nat.zero_le n) fun _ _ hj => hj

end GhostChat.Lib.Effect
