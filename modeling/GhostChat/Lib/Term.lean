import Mathlib.Data.Set.Basic
import Mathlib.Tactic.Common

/-!
# Free terms for key material

Key material as terms: atoms nobody can compute, public byte strings,
concatenation, and a key derivation that is a constructor. Two derivations
are then equal only when they are the same derivation, which is what
"collision free" and "domain separated" mean without probabilities.

What somebody can compute from what he holds is `Derivable`: byte strings are
put together and taken apart, keys are derived and never inverted. For key
material that is all one needs to say about an attacker, and the one rule for
secrecy is `Derivable.occurs`: no derivation brings in an atom that was not
there.
-/

namespace GhostChat.Lib

/-- Terms over atoms `A`. `kdf` is one output block of a derivation from
input key material, salt and a public label. -/
inductive Term (A : Type) where
  | atom (a : A)
  | lit (bytes : List UInt8)
  | cat (left right : Term A)
  | kdf (ikm salt : Term A) (info : List UInt8) (block : Nat)
  deriving DecidableEq

namespace Term

variable {A : Type}

/-- A number that tells small terms apart. -/
def tag : Term A → Nat
  | .atom _ => 1
  | .lit b => b.length
  | .cat l r => 2 * l.tag + 3 * r.tag
  | .kdf i s f b => 5 * i.tag + 7 * s.tag + f.length + b

/-- The bytes a term shows: a literal shows itself, a concatenation its
parts, everything else 32 bytes. -/
def show32 : Term A → List UInt8
  | .lit b => b
  | .cat l r => l.show32 ++ r.show32
  | t => List.replicate 32 (UInt8.ofNat t.tag)

/-- The atom `x` is part of what the term was made from. -/
def Occurs (x : A) : Term A → Prop
  | .atom y => x = y
  | .lit _ => False
  | .cat l r => l.Occurs x ∨ r.Occurs x
  | .kdf i s _ _ => i.Occurs x ∨ s.Occurs x

/-- What can be computed from the terms in `S` and public byte strings. -/
inductive Derivable (S : Set (Term A)) : Term A → Prop
  | known {t : Term A} : t ∈ S → Derivable S t
  | lit (bytes : List UInt8) : Derivable S (.lit bytes)
  | cat {l r : Term A} : Derivable S l → Derivable S r → Derivable S (.cat l r)
  | left {l r : Term A} : Derivable S (.cat l r) → Derivable S l
  | right {l r : Term A} : Derivable S (.cat l r) → Derivable S r
  | kdf {i s : Term A} (info : List UInt8) (block : Nat) : Derivable S i → Derivable S s →
      Derivable S (.kdf i s info block)

/-- An atom in a derivable term is in a term that was held. -/
theorem Derivable.occurs {S : Set (Term A)} {t : Term A} (h : Derivable S t) {x : A}
    (hx : t.Occurs x) : ∃ u ∈ S, Term.Occurs x u := by
  induction h with
  | known ht => exact ⟨_, ht, hx⟩
  | lit b => exact hx.elim
  | cat _ _ ihl ihr => exact hx.elim ihl ihr
  | left _ ih => exact ih (Or.inl hx)
  | right _ ih => exact ih (Or.inr hx)
  | kdf info block _ _ ihi ihs => exact hx.elim ihi ihs

end Term

end GhostChat.Lib
