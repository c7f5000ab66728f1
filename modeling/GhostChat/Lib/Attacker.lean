import GhostChat.Lib.Term

/-!
# What an attacker cannot compute

`Derivable.occurs` settles the easy half of secrecy: an atom nobody holds is in
no derivable term. It says nothing about a key all of whose atoms the attacker
does hold, and that is the case a ratchet is for. There the key is secret
because it stands too early in a chain of derivations, not because of what it
is made from.

The rule for that case is `Sheltered.not_derivable`. A set of terms is sheltered if
none of them is public or a concatenation and each derived one has a parent in
the set, so that the only way in from outside is to hold one of them. An
attacker who holds none then computes none. What he holds counts with its
concatenations taken apart (`parts`), since taking apart is all he can do to a
term besides deriving from it.
-/

namespace GhostChat.Lib

namespace Term

variable {A : Type} {S S' X : Set (Term A)} {t : Term A}

/-- A term with its concatenations taken apart. -/
def parts : Term A → Set (Term A)
  | .cat l r => l.parts ∪ r.parts
  | .atom a => {.atom a}
  | .lit b => {.lit b}
  | .kdf i s f b => {.kdf i s f b}

/-- What is not put together has no part but itself. -/
theorem parts_of_not_cat (h : ∀ l r, t ≠ .cat l r) : t.parts = {t} := by
  cases t with
  | cat l r => exact absurd rfl (h l r)
  | atom a => rfl
  | lit b => rfl
  | kdf i s f b => rfl

/-- Nothing in `X` is public or put together, and what is derived is derived
from something in `X`. -/
structure Sheltered (X : Set (Term A)) : Prop where
  lit : ∀ b, .lit b ∉ X
  cat : ∀ l r, .cat l r ∉ X
  parent : ∀ i s f b, .kdf i s f b ∈ X → i ∈ X ∨ s ∈ X

/-- A part of what can be computed is in the set only if a part of what is
held is. -/
theorem Sheltered.parts_avoid (hX : Sheltered X) (hS : ∀ u ∈ S, ∀ v ∈ u.parts, v ∉ X)
    (h : Derivable S t) : ∀ v ∈ t.parts, v ∉ X := by
  induction h with
  | known ht => exact hS _ ht
  | lit b =>
      intro v hv
      rw [show v = .lit b from hv]
      exact hX.lit b
  | cat _ _ ihl ihr =>
      intro v hv
      exact hv.elim (ihl v) (ihr v)
  | left _ ih => exact fun v hv => ih v (Or.inl hv)
  | right _ ih => exact fun v hv => ih v (Or.inr hv)
  | @kdf i s info block _ _ ihi ihs =>
      intro v hv hvX
      rw [show v = .kdf i s info block from hv] at hvX
      -- A parent in the set is no concatenation, so it is a part of itself.
      have hself : ∀ u : Term A, u ∈ X → u ∈ u.parts := by
        intro u hu
        rw [parts_of_not_cat fun l r he => hX.cat l r (he ▸ hu)]
        rfl
      rcases hX.parent _ _ _ _ hvX with hi | hs
      · exact ihi i (hself i hi) hi
      · exact ihs s (hself s hs) hs

/-- Whoever holds nothing in a sheltered set computes nothing in it. -/
theorem Sheltered.not_derivable (hX : Sheltered X) (hS : ∀ u ∈ S, ∀ v ∈ u.parts, v ∉ X)
    (ht : t ∈ X) : ¬ Derivable S t := by
  intro h
  refine hX.parts_avoid hS h t ?_ ht
  rw [parts_of_not_cat fun l r he => hX.cat l r (he ▸ ht)]
  rfl

/-- What was computed on the way need not be held. -/
theorem Derivable.trans (hS : ∀ u ∈ S, Derivable S' u) (h : Derivable S t) : Derivable S' t := by
  induction h with
  | known ht => exact hS _ ht
  | lit b => exact .lit b
  | cat _ _ ihl ihr => exact .cat ihl ihr
  | left _ ih => exact .left ih
  | right _ ih => exact .right ih
  | kdf info block _ _ ihi ihs => exact .kdf info block ihi ihs

theorem Derivable.mono (hsub : S ⊆ S') (h : Derivable S t) : Derivable S' t :=
  h.trans fun _ hu => .known (hsub hu)

/-- Whoever holds atoms only computes exactly what is made from them. -/
theorem derivable_iff_atoms (hS : ∀ u ∈ S, ∃ a, u = .atom a) :
    Derivable S t ↔ ∀ x, t.Occurs x → .atom x ∈ S := by
  constructor
  · intro h x hx
    obtain ⟨u, hu, hux⟩ := h.occurs hx
    obtain ⟨a, rfl⟩ := hS u hu
    rw [show x = a from hux]
    exact hu
  · intro h
    induction t with
    | atom a => exact .known (h a rfl)
    | lit b => exact .lit b
    | cat l r ihl ihr =>
        exact .cat (ihl fun x hx => h x (Or.inl hx)) (ihr fun x hx => h x (Or.inr hx))
    | kdf i s f b ihi ihs =>
        exact .kdf f b (ihi fun x hx => h x (Or.inl hx)) (ihs fun x hx => h x (Or.inr hx))

end Term

end GhostChat.Lib
