import Mathlib.Data.Finset.Card
import Mathlib.Data.Finset.Union
import Mathlib.Order.Interval.Finset.Nat
import Mathlib.Tactic.Common

/-!
# Deliveries out of order

Numbered items on several lines, delivered in any order and with losses. `D`
lists what has been delivered, as pairs of a line and a number. On each line
there is a number expected next, one past the highest delivered; what lies
below it and has not come is pending. A delivery is either ahead, at or past
the expected number, and makes everything it jumps over pending, or it is
late, and takes one item off the pending ones.
-/

namespace GhostChat.Lib.Window

variable {ι : Type} [DecidableEq ι] {D : List (ι × Nat)} {d : ι} {n i : Nat}
  {id : ι × Nat}

/-- One past the highest number delivered on line `d`. -/
def nextExpected (D : List (ι × Nat)) (d : ι) : Nat :=
  D.foldr (fun e m => if e.1 = d then max (e.2 + 1) m else m) 0

/-- The items passed over on some line and not delivered. -/
def pending (D : List (ι × Nat)) : Finset (ι × Nat) :=
  (D.toFinset.biUnion fun e => (Finset.range e.2).image fun i => (e.1, i)) \ D.toFinset

@[simp] theorem nextExpected_nil (d : ι) : nextExpected [] d = 0 := rfl

theorem nextExpected_cons (e : ι × Nat) (D : List (ι × Nat)) (d : ι) :
    nextExpected (e :: D) d
      = if e.1 = d then max (e.2 + 1) (nextExpected D d) else nextExpected D d := rfl

theorem lt_nextExpected : i < nextExpected D d ↔ ∃ n, i ≤ n ∧ (d, n) ∈ D := by
  induction D with
  | nil => simp
  | cons e D ih =>
      rw [nextExpected_cons]
      obtain ⟨d', m⟩ := e
      by_cases hd : d' = d
      · subst hd
        rw [if_pos rfl, lt_max_iff, ih]
        constructor
        · rintro (h | ⟨n, hn, hmem⟩)
          · exact ⟨m, by omega, List.mem_cons_self⟩
          · exact ⟨n, hn, List.mem_cons_of_mem _ hmem⟩
        · rintro ⟨n, hn, hmem⟩
          rcases List.mem_cons.mp hmem with he | hmem
          · injection he with _ he
            exact Or.inl (by show i < m + 1; omega)
          · exact Or.inr ⟨n, hn, hmem⟩
      · rw [if_neg hd, ih]
        constructor
        · rintro ⟨n, hn, hmem⟩
          exact ⟨n, hn, List.mem_cons_of_mem _ hmem⟩
        · rintro ⟨n, hn, hmem⟩
          rcases List.mem_cons.mp hmem with he | hmem
          · injection he with he _
            exact absurd he.symm hd
          · exact ⟨n, hn, hmem⟩

theorem mem_pending : id ∈ pending D ↔ id ∉ D ∧ ∃ n, id.2 < n ∧ (id.1, n) ∈ D := by
  obtain ⟨d, i⟩ := id
  simp only [pending, Finset.mem_sdiff, Finset.mem_biUnion, List.mem_toFinset,
    Finset.mem_image, Finset.mem_range, Prod.mk.injEq]
  constructor
  · rintro ⟨⟨⟨d', n⟩, hmem, j, hj, rfl, rfl⟩, hnot⟩
    exact ⟨hnot, n, hj, hmem⟩
  · rintro ⟨hnot, n, hn, hmem⟩
    exact ⟨⟨(d, n), hmem, i, hn, rfl, rfl⟩, hnot⟩

@[simp] theorem pending_nil : pending ([] : List (ι × Nat)) = ∅ := rfl

/-- Below the expected number an item has come or is pending. -/
theorem pending_of_lt (hnot : (d, i) ∉ D) (h : i < nextExpected D d) :
    (d, i) ∈ pending D := by
  obtain ⟨n, hn, hmem⟩ := lt_nextExpected.mp h
  refine mem_pending.mpr ⟨hnot, n, ?_, hmem⟩
  rcases Nat.lt_or_eq_of_le hn with h | rfl
  · exact h
  · exact absurd hmem hnot

theorem lt_of_pending (h : id ∈ pending D) : id.2 < nextExpected D id.1 := by
  obtain ⟨-, n, hn, hmem⟩ := mem_pending.mp h
  exact lt_nextExpected.mpr ⟨n, hn.le, hmem⟩

/-! ## A delivery ahead -/

theorem nextExpected_ahead (h : nextExpected D d ≤ n) :
    nextExpected ((d, n) :: D) d = n + 1 := by
  rw [nextExpected_cons, if_pos rfl]
  show max (n + 1) (nextExpected D d) = n + 1
  omega

theorem nextExpected_other {d' : ι} (h : d' ≠ d) :
    nextExpected ((d', n) :: D) d = nextExpected D d := by
  rw [nextExpected_cons, if_neg h]

theorem mem_pending_ahead (h : nextExpected D d ≤ n) :
    id ∈ pending ((d, n) :: D) ↔
      id ∈ pending D ∨ (id.1 = d ∧ nextExpected D d ≤ id.2 ∧ id.2 < n) := by
  obtain ⟨d', i⟩ := id
  simp only [mem_pending, List.mem_cons, Prod.mk.injEq, not_or]
  constructor
  · rintro ⟨⟨hne, hnot⟩, m, hm, ⟨rfl, rfl⟩ | hmem⟩
    · by_cases hi : i < nextExpected D d'
      · exact Or.inl (mem_pending.mp (pending_of_lt hnot hi))
      · exact Or.inr ⟨rfl, by omega, hm⟩
    · exact Or.inl ⟨hnot, m, hm, hmem⟩
  · rintro (⟨hnot, m, hm, hmem⟩ | ⟨rfl, hlo, hhi⟩)
    · refine ⟨⟨?_, hnot⟩, m, hm, Or.inr hmem⟩
      rintro ⟨rfl, rfl⟩
      have := lt_nextExpected.mpr ⟨m, hm.le, hmem⟩
      omega
    · refine ⟨⟨fun he => by omega, fun hmem => ?_⟩, n, hhi, Or.inl ⟨rfl, rfl⟩⟩
      have := lt_nextExpected.mpr ⟨i, Nat.le_refl _, hmem⟩
      omega

/-- The items jumped over, counted. -/
theorem card_pending_ahead (h : nextExpected D d ≤ n) :
    (pending ((d, n) :: D)).card = (pending D).card + (n - nextExpected D d) := by
  have heq : pending ((d, n) :: D)
      = pending D ∪ (Finset.Ico (nextExpected D d) n).image fun i => (d, i) := by
    ext id
    rw [mem_pending_ahead h, Finset.mem_union, Finset.mem_image]
    obtain ⟨d', i⟩ := id
    simp only [Finset.mem_Ico, Prod.mk.injEq]
    constructor
    · rintro (h | ⟨rfl, hlo, hhi⟩)
      · exact Or.inl h
      · exact Or.inr ⟨i, ⟨hlo, hhi⟩, rfl, rfl⟩
    · rintro (h | ⟨j, ⟨hlo, hhi⟩, rfl, rfl⟩)
      · exact Or.inl h
      · exact Or.inr ⟨rfl, hlo, hhi⟩
  have hdisj : Disjoint (pending D)
      ((Finset.Ico (nextExpected D d) n).image fun i => (d, i)) := by
    rw [Finset.disjoint_left]
    intro id hid himg
    obtain ⟨j, hj, rfl⟩ := Finset.mem_image.mp himg
    have h₁ := lt_of_pending hid
    have h₂ := (Finset.mem_Ico.mp hj).1
    simp only at h₁
    omega
  have hinj : Function.Injective fun i : Nat => (d, i) := fun i j hij => by
    injection hij
  rw [heq, Finset.card_union_of_disjoint hdisj, Finset.card_image_of_injective _ hinj,
    Nat.card_Ico]

/-! ## A late delivery -/

theorem pending_late (h : id ∈ pending D) : pending (id :: D) = (pending D).erase id := by
  ext x
  rw [Finset.mem_erase, mem_pending, mem_pending]
  simp only [List.mem_cons, not_or]
  constructor
  · rintro ⟨⟨hne, hnot⟩, m, hm, he | hmem⟩
    · -- Below the late item lies nothing its own overtaker does not cover.
      subst he
      obtain ⟨-, m', hm', hmem'⟩ := mem_pending.mp h
      exact ⟨hne, hnot, m', hm.trans hm', hmem'⟩
    · exact ⟨hne, hnot, m, hm, hmem⟩
  · rintro ⟨hne, hnot, m, hm, hmem⟩
    exact ⟨⟨hne, hnot⟩, m, hm, Or.inr hmem⟩

theorem nextExpected_late (h : id ∈ pending D) (d : ι) :
    nextExpected (id :: D) d = nextExpected D d := by
  rw [nextExpected_cons]
  split
  · next he =>
      have := lt_of_pending h
      rw [he] at this
      omega
  · rfl

end GhostChat.Lib.Window
