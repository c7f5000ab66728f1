import Mathlib.Logic.Function.Iterate
import Mathlib.Tactic.Common

/-!
# Chains of one-way steps

Two shapes of key derivation and the one fact each is used for. A hash chain
iterates `next` from a head; a keyed chain folds a list of inputs into a
seed. If the step is injective and the starting point is not itself a step's
output, a value determines where in which chain it stands: the step can be
peeled off one side only if it can be peeled off the other, and a mismatch in
length would make a starting point an output.
-/

namespace GhostChat.Lib.Chain

variable {K S : Type}

/-- A value of a hash chain determines its head and its position. -/
theorem iterate_inj {next : K → K} (hinj : Function.Injective next)
    {h h' : K} (hh : ∀ k, next k ≠ h) (hh' : ∀ k, next k ≠ h') :
    ∀ {j j' : Nat}, next^[j] h = next^[j'] h' → h = h' ∧ j = j' := by
  intro j
  induction j with
  | zero =>
      intro j' e
      cases j' with
      | zero => exact ⟨e, rfl⟩
      | succ j' =>
          rw [Function.iterate_succ_apply'] at e
          exact absurd e.symm (hh _)
  | succ j ih =>
      intro j' e
      cases j' with
      | zero =>
          rw [Function.iterate_succ_apply'] at e
          exact absurd e (hh' _)
      | succ j' =>
          rw [Function.iterate_succ_apply', Function.iterate_succ_apply'] at e
          obtain ⟨h1, h2⟩ := ih (hinj e)
          exact ⟨h1, by rw [h2]⟩

/-- The end of a keyed chain, newest input first. -/
def fold (step : K → S → K) (seed : K) (inputs : List S) : K :=
  inputs.foldr (fun s r => step r s) seed

/-- What every step establishes, and the seed has, every end has. -/
theorem fold_good {step : K → S → K} {seed : K} (good : K → Prop)
    (hseed : good seed) (hstep : ∀ r s, good (step r s)) (l : List S) :
    good (fold step seed l) := by
  cases l with
  | nil => exact hseed
  | cons s l => exact hstep _ _

/-- The end of a keyed chain determines every input that went into it. -/
theorem fold_inj {step : K → S → K} {seed : K} (good : K → Prop)
    (hseed : good seed) (hstep : ∀ r s, good (step r s))
    (hinj : ∀ {r r' s s'}, good r → good r' → step r s = step r' s' →
      r = r' ∧ s = s')
    (hfresh : ∀ r s, step r s ≠ seed) :
    ∀ {l l' : List S}, fold step seed l = fold step seed l' → l = l' := by
  intro l
  induction l with
  | nil =>
      intro l' e
      cases l' with
      | nil => rfl
      | cons s' l' => exact absurd e.symm (hfresh _ _)
  | cons s l ih =>
      intro l' e
      cases l' with
      | nil => exact absurd e (hfresh _ _)
      | cons s' l' =>
          obtain ⟨hr, hs⟩ := hinj (fold_good good hseed hstep l)
            (fold_good good hseed hstep l') e
          rw [hs, ih hr]

end GhostChat.Lib.Chain
