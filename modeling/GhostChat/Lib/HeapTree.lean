import Mathlib.Data.Option.NAry
import Mathlib.Logic.Function.Basic
import Mathlib.Tactic.Common
import Mathlib.Tactic.Ring

/-!
# Full binary trees in an array

The root is node 0 and the children of node `i` are `2 * i + 1` and
`2 * i + 2`, so with `inner` inner nodes there are `2 * inner + 1` nodes and
the leaves come last. A leaf may have a value or not, and an inner node has
one when both its children do.

`value` is what a node has by this rule, computed from the leaves up. An
array is settled when every node has what its children give it, and an update
of one leaf is repaired on the way up to the root: `SettledBut p` says that
only `p` may be wrong. Each round of such a walk writes `p` and goes on with
its parent, or finds a child missing and stops. It may stop there, because a
node that has a value has two children that do: whatever is above a missing
node is missing already.
-/

namespace GhostChat.Lib.HeapTree

variable {α : Type} {leaf leaf' : Nat → Option α} {node : Nat → α → α → α} {inner i j p : Nat}
  {x : Nat → Option α}

/-- The node above node `i`. -/
def parent (i : Nat) : Option Nat := if i = 0 then none else some ((i - 1) / 2)

theorem parent_eq_some_iff : parent i = some p ↔ i = 2 * p + 1 ∨ i = 2 * p + 2 := by
  rw [parent]
  split
  · simp only [reduceCtorEq, false_iff]
    omega
  · rw [Option.some.injEq]
    omega

/-! ## From the leaves up -/

/-- The value of node `i`, `height` levels above the leaves. -/
def value (leaf : Nat → Option α) (node : Nat → α → α → α) : (height i : Nat) → Option α
  | 0, i => leaf i
  | height + 1, i => Option.map₂ (node i) (value leaf node height (2 * i + 1))
      (value leaf node height (2 * i + 2))

/-- A node has a value exactly if all leaves below it do. -/
theorem value_ne_none_iff (height : Nat) : value leaf node height i ≠ none ↔
    ∀ j, 2 ^ height * (i + 1) ≤ j + 1 → j + 1 < 2 ^ height * (i + 2) → leaf j ≠ none := by
  induction height generalizing i with
  | zero =>
      rw [value]
      constructor
      · intro h j hlo hhi
        obtain rfl : j = i := by omega
        exact h
      · exact fun h => h i (by omega) (by omega)
  | succ height ih =>
      have hlo : 2 ^ (height + 1) * (i + 1) = 2 ^ height * (2 * i + 1 + 1) := by ring
      have hmid : 2 ^ height * (2 * i + 1 + 2) = 2 ^ height * (2 * i + 2 + 1) := rfl
      have hhi : 2 ^ (height + 1) * (i + 2) = 2 ^ height * (2 * i + 2 + 2) := by ring
      have hle : 2 ^ height * (2 * i + 1 + 1) ≤ 2 ^ height * (2 * i + 1 + 2) :=
        Nat.mul_le_mul_left _ (by omega)
      have hle' : 2 ^ height * (2 * i + 2 + 1) ≤ 2 ^ height * (2 * i + 2 + 2) :=
        Nat.mul_le_mul_left _ (by omega)
      rw [value, ne_eq, Option.map₂_eq_none_iff, not_or, ← ne_eq, ← ne_eq, ih, ih, hlo, hhi]
      constructor
      · intro h j hlow hhigh
        by_cases hj : j + 1 < 2 ^ height * (2 * i + 1 + 2)
        · exact h.1 j hlow hj
        · exact h.2 j (by omega) hhigh
      · intro h
        exact ⟨fun j hlow hhigh => h j hlow (by omega), fun j hlow hhigh => h j (by omega) hhigh⟩

/-! ## Settled arrays -/

/-- What node `i` should have, going by its children. -/
def expected (leaf : Nat → Option α) (node : Nat → α → α → α) (inner : Nat)
    (x : Nat → Option α) (i : Nat) : Option α :=
  if i < inner then Option.map₂ (node i) (x (2 * i + 1)) (x (2 * i + 2)) else leaf i

/-- Every node but `p` has what its children give it, and where an inner node
has a value, so have its children. -/
structure SettledBut (leaf : Nat → Option α) (node : Nat → α → α → α) (inner : Nat)
    (x : Nat → Option α) (p : Option Nat) : Prop where
  others : ∀ i ≤ 2 * inner, some i ≠ p → x i = expected leaf node inner x i
  grounded : ∀ i < inner, x i ≠ none → x (2 * i + 1) ≠ none ∧ x (2 * i + 2) ≠ none

/-- Every node has what its children give it. -/
abbrev Settled (leaf : Nat → Option α) (node : Nat → α → α → α) (inner : Nat)
    (x : Nat → Option α) : Prop := SettledBut leaf node inner x none

theorem settled_of_expected (h : ∀ i ≤ 2 * inner, x i = expected leaf node inner x i) :
    Settled leaf node inner x where
  others := fun i hi _ => h i hi
  grounded := by
    intro i hi hne
    rw [h i (by omega), expected, if_pos hi, ne_eq, Option.map₂_eq_none_iff, not_or] at hne
    exact hne

/-- A leaf is given another value. -/
theorem SettledBut.newLeaf (h : Settled leaf node inner x)
    (hleaf : ∀ i, inner ≤ i → i ≠ j → leaf' i = leaf i) :
    SettledBut leaf' node inner x (some j) where
  others := by
    intro i hi hne
    have hij : i ≠ j := fun heq => hne (congrArg some heq)
    rw [h.others i hi (by simp), expected, expected]
    split
    · rfl
    · next hi => rw [hleaf i (not_lt.mp hi) hij]
  grounded := h.grounded

theorem expected_update (hp : parent j ≠ some i) (v : Option α) :
    expected leaf node inner (Function.update x j v) i = expected leaf node inner x i := by
  have hleft : 2 * i + 1 ≠ j := fun h => hp (parent_eq_some_iff.mpr (Or.inl h.symm))
  have hright : 2 * i + 2 ≠ j := fun h => hp (parent_eq_some_iff.mpr (Or.inr h.symm))
  rw [expected, expected, Function.update_of_ne hleft, Function.update_of_ne hright]

/-- Node `p` is put right, and now its parent may be wrong. -/
theorem SettledBut.write (h : SettledBut leaf node inner x (some p)) {v : α}
    (hv : expected leaf node inner x p = some v) :
    SettledBut leaf node inner (Function.update x p (some v)) (parent p) where
  others := by
    intro i hi hne
    rw [expected_update hne.symm]
    by_cases hip : i = p
    · rw [hip, Function.update_self, hv]
    · rw [Function.update_of_ne hip]
      exact h.others i hi (fun heq => hip (Option.some.inj heq))
  grounded := by
    intro i hi hne
    have hset : ∀ k, x k ≠ none → Function.update x p (some v) k ≠ none := by
      intro k hk
      by_cases hkp : k = p
      · rw [hkp, Function.update_self]
        exact Option.some_ne_none v
      · rwa [Function.update_of_ne hkp]
    by_cases hip : i = p
    · subst hip
      have hboth : Option.map₂ (node i) (x (2 * i + 1)) (x (2 * i + 2)) ≠ none := by
        rw [expected, if_pos hi] at hv
        rw [hv]
        exact Option.some_ne_none v
      rw [ne_eq, Option.map₂_eq_none_iff, not_or] at hboth
      exact ⟨hset _ hboth.1, hset _ hboth.2⟩
    · rw [Function.update_of_ne hip] at hne
      obtain ⟨hleft, hright⟩ := h.grounded i hi hne
      exact ⟨hset _ hleft, hset _ hright⟩

/-- A child of `p` is missing, so `p` was right, and so is everything. -/
theorem SettledBut.stop (h : SettledBut leaf node inner x (some p)) (hp : p < inner)
    (hmissing : x (2 * p + 1) = none ∨ x (2 * p + 2) = none) : Settled leaf node inner x where
  others := by
    intro i hi _
    by_cases hip : i = p
    · subst hip
      have hnone : x i = none := by
        by_contra hne
        obtain ⟨hleft, hright⟩ := h.grounded i hp hne
        exact hmissing.elim hleft hright
      rw [hnone, expected, if_pos hp, Option.map₂_eq_none_iff.mpr hmissing]
    · exact h.others i hi (fun heq => hip (Option.some.inj heq))
  grounded := h.grounded

/-! ## Perfect trees -/

/-- In a settled array with `2 ^ k` leaves each node has its value from the
leaves up. -/
theorem Settled.eq_value {k : Nat} (h : Settled leaf node (2 ^ k - 1) x) (height : Nat) :
    ∀ depth i, depth + height = k → 2 ^ depth ≤ i + 1 → i + 1 < 2 ^ (depth + 1) →
      x i = value leaf node height i := by
  induction height with
  | zero =>
      intro depth i hk hlo hhi
      obtain rfl : depth = k := hk
      rw [pow_succ] at hhi
      rw [value, h.others i (by omega) (by simp), expected, if_neg (by omega)]
  | succ height ih =>
      intro depth i hk hlo hhi
      have hpow : 2 ^ (depth + 1) ≤ 2 ^ k := Nat.pow_le_pow_right (by omega) (by omega)
      have hdouble : 2 ^ (depth + 1) = 2 * 2 ^ depth := by ring
      have hdouble' : 2 ^ (depth + 1 + 1) = 2 * 2 ^ (depth + 1) := by ring
      rw [value, h.others i (by omega) (by simp), expected, if_pos (by omega),
        ih (depth + 1) (2 * i + 1) (by omega) (by omega) (by omega),
        ih (depth + 1) (2 * i + 2) (by omega) (by omega) (by omega)]

/-- The value of node `i` in a tree with `2 ^ k` leaves: it stands
`log2 (i + 1)` levels below the root. -/
def valueAt (leaf : Nat → Option α) (node : Nat → α → α → α) (k i : Nat) : Option α :=
  value leaf node (k - (i + 1).log2) i

theorem log2_child (h : j = 2 * i + 1 ∨ j = 2 * i + 2) :
    (j + 1).log2 = (i + 1).log2 + 1 := by
  rw [Nat.log2_def, if_pos (by omega), show (j + 1) / 2 = i + 1 by omega]

theorem valueAt_expected {k : Nat} (hi : i ≤ 2 * (2 ^ k - 1)) :
    valueAt leaf node k i = expected leaf node (2 ^ k - 1) (valueAt leaf node k) i := by
  rw [expected]
  split
  · next hinner =>
      have hlog : (i + 1).log2 < k := by
        rw [Nat.log2_lt (by omega)]
        omega
      have hleft := log2_child (i := i) (Or.inl rfl)
      have hright := log2_child (i := i) (Or.inr rfl)
      rw [valueAt, valueAt, valueAt, hleft, hright,
        show k - (i + 1).log2 = k - ((i + 1).log2 + 1) + 1 by omega, value]
  · next hleaf =>
      have hlog : k ≤ (i + 1).log2 := by
        rw [Nat.le_log2 (by omega)]
        omega
      rw [valueAt, Nat.sub_eq_zero_of_le hlog, value]

/-- Settled is what the values are, and nothing else is. -/
theorem settled_iff {k : Nat} : Settled leaf node (2 ^ k - 1) x ↔
    ∀ i ≤ 2 * (2 ^ k - 1), x i = valueAt leaf node k i := by
  constructor
  · intro h i hi
    have hlog : (i + 1).log2 ≤ k := by
      rw [← Nat.lt_succ_iff, Nat.log2_lt (by omega), pow_succ]
      have hpos := Nat.two_pow_pos k
      omega
    exact h.eq_value _ (i + 1).log2 i (by omega) (Nat.log2_self_le (by omega)) Nat.lt_log2_self
  · intro h
    refine settled_of_expected fun i hi => ?_
    rw [h i hi, valueAt_expected hi, expected, expected]
    split
    · rw [h (2 * i + 1) (by omega), h (2 * i + 2) (by omega)]
    · rfl

end GhostChat.Lib.HeapTree
