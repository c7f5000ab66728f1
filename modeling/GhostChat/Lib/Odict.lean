import Mathlib.Data.List.DropRight
import Mathlib.Data.List.Nodup
import Mathlib.Data.List.Perm.Subperm
import Mathlib.Tactic.Common

/-!
# Ordered dictionaries with first-in first-out eviction

An insertion-ordered map as the list of its items, oldest first. Assigning to
a key that is present keeps its place; assigning to a new key appends. The
bounded stores built on it evict from the front before they insert, with the
loop `while len(d) >= cap: d.popitem(last=False)`, which on a capacity of
zero empties the map and then fails.
-/

namespace GhostChat.Lib

/-- The items of an insertion-ordered map, oldest first. -/
abbrev Odict (κ ν : Type) := List (κ × ν)

namespace Odict

variable {κ ν : Type} [DecidableEq κ]

/-- `key in d`. -/
def has (d : Odict κ ν) (key : κ) : Bool := d.any (·.1 = key)

/-- `d.get(key)`. -/
def get? (d : Odict κ ν) (key : κ) : Option ν := (d.find? (·.1 = key)).map (·.2)

/-- `d[key] = value`: in place if the key is there, at the end if not. -/
def set (d : Odict κ ν) (key : κ) (value : ν) : Odict κ ν :=
  if has d key then d.map fun e => if e.1 = key then (key, value) else e
  else d ++ [(key, value)]

/-- `del d[key]`. -/
def erase (d : Odict κ ν) (key : κ) : Odict κ ν := d.filter (·.1 ≠ key)

/-- The keys in insertion order. -/
def keys (d : Odict κ ν) : List κ := d.map (·.1)

theorem has_iff {d : Odict κ ν} {key : κ} : has d key = true ↔ key ∈ keys d := by
  simp [has, keys]

theorem has_of_not_mem {d : Odict κ ν} {key : κ} (h : key ∉ keys d) : has d key = false := by
  rw [← Bool.not_eq_true, has_iff]
  exact h

theorem get?_isSome {d : Odict κ ν} {key : κ} :
    (get? d key).isSome = has d key := by
  rw [Bool.eq_iff_iff, get?, Option.isSome_map, List.find?_isSome, has,
    List.any_eq_true]

theorem mem_of_get? {d : Odict κ ν} {key : κ} {v : ν} (h : get? d key = some v) :
    (key, v) ∈ d := by
  simp only [get?, Option.map_eq_some_iff] at h
  obtain ⟨e, he, rfl⟩ := h
  have hmem := List.mem_of_find?_eq_some he
  have hkey : e.1 = key := by simpa using List.find?_some he
  rw [← hkey]
  exact hmem

theorem set_of_not_has {d : Odict κ ν} {key : κ} (h : has d key = false) (v : ν) :
    set d key v = d ++ [(key, v)] := by
  simp [set, h]

theorem mem_erase {d : Odict κ ν} {key : κ} {e : κ × ν} :
    e ∈ erase d key ↔ e ∈ d ∧ e.1 ≠ key := by
  simp [erase]

/-- What was assigned is what is read. -/
theorem get?_set_self (d : Odict κ ν) (key : κ) (v : ν) : get? (set d key v) key = some v := by
  rw [get?, set]
  split
  · next h =>
      induction d with
      | nil => cases h
      | cons e rest ih =>
          by_cases hk : e.1 = key
          · rw [List.map_cons, if_pos hk, List.find?_cons_of_pos (by simp)]
            rfl
          · have hrest : has rest key = true := by simpa [has, hk] using h
            rw [List.map_cons, if_neg hk, List.find?_cons_of_neg (by simpa using hk)]
            exact ih hrest
  · next h =>
      rw [List.find?_append]
      have hnone : d.find? (·.1 = key) = none := by
        rw [List.find?_eq_none]
        intro e he hk
        exact h (has_iff.mpr (List.mem_map.mpr ⟨e, he, by simpa using hk⟩))
      rw [hnone]
      simp

theorem get?_set_ne (d : Odict κ ν) {key k : κ} (hne : k ≠ key) (v : ν) :
    get? (set d key v) k = get? d k := by
  rw [get?, get?, set]
  split
  · clear * - hne
    induction d with
    | nil => rfl
    | cons e rest ih =>
        rw [List.map_cons]
        by_cases he : e.1 = key
        · rw [if_pos he, List.find?_cons_of_neg (by simpa using hne.symm),
            List.find?_cons_of_neg (by simpa [he] using hne.symm)]
          exact ih
        · rw [if_neg he]
          by_cases hk : e.1 = k
          · rw [List.find?_cons_of_pos (by simpa using hk),
              List.find?_cons_of_pos (by simpa using hk)]
          · rw [List.find?_cons_of_neg (by simpa using hk),
              List.find?_cons_of_neg (by simpa using hk)]
            exact ih
  · rw [List.find?_append, List.find?_cons_of_neg (by simpa using hne.symm)]
    simp

theorem get?_erase_self (d : Odict κ ν) (key : κ) : get? (erase d key) key = none := by
  rw [get?, Option.map_eq_none_iff, List.find?_eq_none]
  intro e he
  simpa using (mem_erase.mp he).2

theorem get?_erase_ne (d : Odict κ ν) {key k : κ} (hne : k ≠ key) :
    get? (erase d key) k = get? d k := by
  rw [get?, get?, erase, List.find?_filter]
  congr 2
  funext e
  by_cases hk : e.1 = k
  · simp [hk, hne]
  · simp [hk]

theorem has_eq_false_iff {d : Odict κ ν} {key : κ} : has d key = false ↔ get? d key = none := by
  rw [← get?_isSome, Option.isSome_eq_false_iff, Option.isNone_iff_eq_none]

theorem has_eq_true_iff {d : Odict κ ν} {key : κ} :
    has d key = true ↔ ∃ v, get? d key = some v := by
  rw [← get?_isSome, Option.isSome_iff_exists]

theorem mem_keys_of_get? {d : Odict κ ν} {key : κ} {v : ν} (h : get? d key = some v) :
    key ∈ keys d :=
  List.mem_map_of_mem (mem_of_get? h)

theorem has_set (d : Odict κ ν) (key k : κ) (v : ν) :
    has (set d key v) k = (decide (k = key) || has d k) := by
  rw [← get?_isSome, ← get?_isSome]
  by_cases hk : k = key
  · rw [hk, get?_set_self, decide_eq_true rfl]
    rfl
  · rw [get?_set_ne d hk, decide_eq_false hk, Bool.false_or]

theorem has_erase (d : Odict κ ν) (key k : κ) :
    has (erase d key) k = (!decide (k = key) && has d k) := by
  rw [← get?_isSome, ← get?_isSome]
  by_cases hk : k = key
  · rw [hk, get?_erase_self, decide_eq_true rfl]
    rfl
  · rw [get?_erase_ne d hk, decide_eq_false hk]
    rfl

/-- A map with one item. -/
theorem get?_singleton (key : κ) (v : ν) : get? [(key, v)] key = some v := by
  simp [get?]

theorem set_singleton (key : κ) (v v' : ν) : set [(key, v)] key v' = [(key, v')] := by
  simp [set, has]

theorem erase_of_not_has {d : Odict κ ν} {key : κ} (h : has d key = false) :
    erase d key = d := by
  refine List.filter_eq_self.mpr fun e he => ?_
  have hne : e.1 ≠ key := fun hk =>
    Bool.false_ne_true (h.symm.trans (has_iff.mpr (List.mem_map.mpr ⟨e, he, hk⟩)))
  simpa using hne

/-- What an assignment leaves: the new item, and old items under other
keys. -/
theorem mem_set {d : Odict κ ν} {key : κ} {v : ν} {e : κ × ν}
    (h : e ∈ set d key v) : e = (key, v) ∨ (e ∈ d ∧ e.1 ≠ key) := by
  unfold set at h
  split at h
  · rcases List.mem_map.mp h with ⟨e', he', rfl⟩
    split
    · exact Or.inl rfl
    · next hne => exact Or.inr ⟨he', hne⟩
  · next hno =>
      rcases List.mem_append.mp h with hmem | hmem
      · refine Or.inr ⟨hmem, fun hk => hno ?_⟩
        rw [has_iff]
        exact List.mem_map.mpr ⟨e, hmem, hk⟩
      · exact Or.inl (by simpa using hmem)

theorem set_values_subset (d : Odict κ ν) (key : κ) (v : ν) :
    (set d key v).map (·.2) ⊆ v :: d.map (·.2) := by
  intro x hx
  obtain ⟨e, he, rfl⟩ := List.mem_map.mp hx
  rcases mem_set he with rfl | ⟨hmem, -⟩
  · exact List.mem_cons_self
  · exact List.mem_cons_of_mem _ (List.mem_map.mpr ⟨e, hmem, rfl⟩)

/-- An assignment to a key that is there changes no key. -/
theorem set_keys_of_has {d : Odict κ ν} {key : κ} (h : has d key = true) (v : ν) :
    keys (set d key v) = keys d := by
  rw [set, if_pos h, keys, keys, List.map_map]
  refine List.map_congr_left fun e _ => ?_
  by_cases he : e.1 = key
  · simp [he]
  · simp [he]

theorem mem_keys_set {d : Odict κ ν} {key k : κ} {v : ν} (h : k = key ∨ k ∈ keys d) :
    k ∈ keys (set d key v) := by
  by_cases hd : has d key = true
  · rw [set_keys_of_has hd]
    rcases h with rfl | h
    · exact has_iff.mp hd
    · exact h
  · rw [set, if_neg hd, keys, List.map_append, List.mem_append]
    rcases h with rfl | h
    · exact Or.inr (List.mem_singleton.mpr rfl)
    · exact Or.inl h

theorem length_set_le (d : Odict κ ν) (key : κ) (v : ν) :
    (set d key v).length ≤ d.length + 1 := by
  rw [set]
  split
  · rw [List.length_map]
    exact Nat.le_succ _
  · exact Nat.le_of_eq List.length_append

omit [DecidableEq κ] in
/-- A map has at least as many items as keys can be told to be in it. -/
theorem le_length_of_keys {d : Odict κ ν} {f : Nat → κ} (hf : Function.Injective f) {n : Nat}
    (h : ∀ i < n, f i ∈ keys d) : n ≤ d.length := by
  have hnodup : ((List.range n).map f).Nodup := List.nodup_range.map hf
  have hsub : (List.range n).map f ⊆ keys d := by
    intro k hk
    obtain ⟨i, hi, rfl⟩ := List.mem_map.mp hk
    exact h i (List.mem_range.mp hi)
  have hle := (List.subperm_of_subset hnodup hsub).length_le
  rwa [List.length_map, List.length_range, keys, List.length_map] at hle

theorem set_keys_nodup {d : Odict κ ν} (hnd : (keys d).Nodup) (key : κ) (v : ν) :
    (keys (set d key v)).Nodup := by
  by_cases h : has d key = true
  · rw [set_keys_of_has h]
    exact hnd
  · rw [set, if_neg h, keys, List.map_append]
    refine List.nodup_append.mpr ⟨hnd, List.nodup_singleton _, ?_⟩
    intro x hx y hy hxy
    have hy : y = key := by simpa using hy
    exact h (has_iff.mpr (by rw [← hy, ← hxy]; exact hx))

theorem set_values_nodup {d : Odict κ ν} (hk : (keys d).Nodup)
    (hnd : (d.map (·.2)).Nodup) {key : κ} {v : ν} (hv : v ∉ d.map (·.2)) :
    ((set d key v).map (·.2)).Nodup := by
  by_cases h : has d key = true
  · rw [set, if_pos h, List.map_map]
    refine List.Nodup.map_on ?_ (List.Nodup.of_map _ hk)
    -- Two items end up with one value only if neither is the replaced one.
    intro x hx y hy hxy
    by_cases hxk : x.1 = key <;> by_cases hyk : y.1 = key
    · exact List.inj_on_of_nodup_map hk hx hy (hxk.trans hyk.symm)
    · simp only [Function.comp_apply, if_pos hxk, if_neg hyk] at hxy
      exact absurd (List.mem_map.mpr ⟨y, hy, hxy.symm⟩) hv
    · simp only [Function.comp_apply, if_neg hxk, if_pos hyk] at hxy
      exact absurd (List.mem_map.mpr ⟨x, hx, hxy⟩) hv
    · simp only [Function.comp_apply, if_neg hxk, if_neg hyk] at hxy
      exact List.inj_on_of_nodup_map hnd hx hy hxy
  · rw [set, if_neg h, List.map_append]
    refine List.nodup_append.mpr ⟨hnd, List.nodup_singleton _, ?_⟩
    intro x hx y hy hxy
    have hy : y = v := by simpa using hy
    exact hv (by rw [← hy, ← hxy]; exact hx)

/-- The values left by a deletion, with the deleted one put back, are among
the old values with no one counted twice. -/
theorem erase_values_subperm {d : Odict κ ν} {key : κ} {v : ν}
    (h : (key, v) ∈ d) :
    (v :: (erase d key).map (·.2)).Subperm (d.map (·.2)) := by
  induction d with
  | nil => cases h
  | cons e rest ih =>
      by_cases hk : e.1 = key
      · rw [erase, List.filter_cons_of_neg (by simpa using hk)]
        rcases List.mem_cons.mp h with rfl | hmem
        · exact (List.subperm_cons v).mpr
            (List.Sublist.subperm (List.filter_sublist.map _))
        · exact (ih hmem).trans
            (List.Sublist.subperm (List.sublist_cons_self _ _))
      · rw [erase, List.filter_cons_of_pos (by simpa using hk)]
        rcases List.mem_cons.mp h with rfl | hmem
        · exact absurd rfl hk
        · refine (List.Perm.swap _ _ _).subperm.trans ?_
          exact (List.subperm_cons e.2).mpr (ih hmem)

/-- Assigning to new keys one after another appends. -/
theorem foldl_set {α : Type} (f : α → κ) (v : α → ν) (l : List α) (d : Odict κ ν)
    (h : (keys d ++ l.map f).Nodup) :
    l.foldl (fun d x => set d (f x) (v x)) d = d ++ l.map fun x => (f x, v x) := by
  induction l generalizing d with
  | nil => simp
  | cons x l ih =>
      have hnew : has d (f x) = false := by
        rw [← Bool.not_eq_true, has_iff]
        intro hmem
        rw [List.nodup_append] at h
        exact h.2.2 _ hmem _ (List.mem_map_of_mem List.mem_cons_self) rfl
      rw [List.foldl_cons, set_of_not_has hnew, ih]
      · simp
      · simpa [keys] using h

/-! ### A value in hand

A value is moved between a hand and the map. Neither way is it held twice, if
it was not before. -/

theorem set_held_subset (held : List ν) (d : Odict κ ν) (key : κ) (v : ν) :
    held ++ (set d key v).map (·.2) ⊆ v :: held ++ d.map (·.2) := by
  intro x hx
  rcases List.mem_append.mp hx with hx | hx
  · exact List.mem_cons_of_mem _ (List.mem_append_left _ hx)
  · rcases List.mem_cons.mp (set_values_subset d key v hx) with rfl | hx
    · exact List.mem_cons_self
    · exact List.mem_cons_of_mem _ (List.mem_append_right _ hx)

theorem set_held_nodup {held : List ν} {d : Odict κ ν} (hk : (keys d).Nodup) {v : ν}
    (h : (v :: held ++ d.map (·.2)).Nodup) (key : κ) :
    (held ++ (set d key v).map (·.2)).Nodup := by
  rw [List.cons_append, List.nodup_cons] at h
  obtain ⟨hnot, h⟩ := h
  rw [List.nodup_append] at h ⊢
  refine ⟨h.1, set_values_nodup hk h.2.1 (fun hv => hnot (List.mem_append_right _ hv)), ?_⟩
  intro x hx y hy hxy
  rcases List.mem_cons.mp (set_values_subset d key v hy) with rfl | hy
  · exact hnot (hxy ▸ List.mem_append_left _ hx)
  · exact h.2.2 x hx y hy hxy

theorem erase_held_subperm (held : List ν) {d : Odict κ ν} {key : κ} {v : ν}
    (h : (key, v) ∈ d) :
    (v :: held ++ (erase d key).map (·.2)).Subperm (held ++ d.map (·.2)) := by
  refine List.Subperm.trans ?_ ((List.subperm_append_left held).mpr (erase_values_subperm h))
  exact List.perm_middle.symm.subperm

theorem nodup_of_subperm {l l' : List ν} (h : l.Subperm l') (hnd : l'.Nodup) : l.Nodup := by
  obtain ⟨l₁, hp, hs⟩ := h
  exact hp.nodup_iff.mp (hnd.sublist hs)

/-! ### Queues

A map of lists, and all that is in them. -/

section Queues

variable {α : Type}

theorem get?_cons_self (key : κ) (v : ν) (d : Odict κ ν) : get? ((key, v) :: d) key = some v := by
  simp [get?]

theorem get?_cons_ne {key k : κ} (h : k ≠ key) (v : ν) (d : Odict κ ν) :
    get? ((k, v) :: d) key = get? d key := by
  simp [get?, h]

theorem queues_erase {d : Odict κ (List α)} (hk : (keys d).Nodup) (key : κ) :
    ((get? d key).getD [] ++ (erase d key).flatMap (·.2)).Perm (d.flatMap (·.2)) := by
  induction d with
  | nil => exact List.Perm.refl _
  | cons e rest ih =>
      obtain ⟨k, l⟩ := e
      rw [keys, List.map_cons, List.nodup_cons] at hk
      by_cases hkey : k = key
      · subst hkey
        have hrest : has rest k = false := has_of_not_mem hk.1
        rw [get?_cons_self, erase, List.filter_cons_of_neg (by simp), List.flatMap_cons]
        rw [show rest.filter (·.1 ≠ k) = rest from erase_of_not_has hrest]
        exact List.Perm.refl _
      · rw [get?_cons_ne hkey, erase, List.filter_cons_of_pos (by simpa using hkey),
          List.flatMap_cons, List.flatMap_cons]
        refine List.Perm.trans ?_ ((ih hk.2).append_left l)
        rw [← List.append_assoc, ← List.append_assoc]
        exact List.perm_append_comm.append_right _

theorem set_cons_ne {key k : κ} (h : k ≠ key) (v v' : ν) (d : Odict κ ν) :
    set ((k, v) :: d) key v' = (k, v) :: set d key v' := by
  unfold set
  have hhas : has ((k, v) :: d) key = has d key := by simp [has, h]
  rw [hhas]
  split
  · rw [List.map_cons, if_neg h]
  · rfl

theorem queues_set {d : Odict κ (List α)} (hk : (keys d).Nodup) (key : κ) (l : List α) :
    ((get? d key).getD [] ++ (set d key l).flatMap (·.2)).Perm (l ++ d.flatMap (·.2)) := by
  -- Assigning a queue is putting it where the old one was taken away.
  have hplace : ((set d key l).flatMap (·.2)).Perm (l ++ (erase d key).flatMap (·.2)) := by
    induction d with
    | nil => simp [set, has, erase]
    | cons e rest ih =>
        obtain ⟨k, m⟩ := e
        rw [keys, List.map_cons, List.nodup_cons] at hk
        by_cases hkey : k = key
        · subst hkey
          have hrest : has rest k = false := has_of_not_mem hk.1
          have hset : set ((k, m) :: rest) k l = (k, l) :: rest := by
            have hhas : has ((k, m) :: rest) k = true := by simp [has]
            have hne : ∀ e ∈ rest, e.1 ≠ k := fun e he heq =>
              hk.1 (List.mem_map.mpr ⟨e, he, heq⟩)
            rw [set, if_pos hhas, List.map_cons, if_pos rfl,
              List.map_congr_left fun e he => if_neg (hne e he), List.map_id']
          rw [hset, erase, List.filter_cons_of_neg (by simp),
            show rest.filter (·.1 ≠ k) = rest from erase_of_not_has hrest, List.flatMap_cons]
        · rw [set_cons_ne hkey, erase, List.filter_cons_of_pos (by simpa using hkey),
            List.flatMap_cons, List.flatMap_cons]
          refine ((ih hk.2).append_left m).trans ?_
          rw [← List.append_assoc, ← List.append_assoc]
          exact List.perm_append_comm.append_right _
  refine (hplace.append_left _).trans ?_
  rw [← List.append_assoc]
  refine (List.perm_append_comm.append_right _).trans ?_
  rw [List.append_assoc]
  exact (queues_erase hk key).append_left l

theorem queues_push {d : Odict κ (List α)} (hk : (keys d).Nodup) (key : κ) (x : α) :
    ((set d key ((get? d key).getD [] ++ [x])).flatMap (·.2)).Perm (x :: d.flatMap (·.2)) := by
  have h := queues_set hk key ((get? d key).getD [] ++ [x])
  rw [List.append_assoc, List.perm_append_left_iff] at h
  exact h

theorem mem_queue_erase {d : Odict κ (List α)} {key k : κ} {x : α} :
    x ∈ (get? (erase d key) k).getD [] ↔ k ≠ key ∧ x ∈ (get? d k).getD [] := by
  by_cases hk : k = key
  · rw [hk, get?_erase_self]
    exact iff_of_false List.not_mem_nil fun h => h.1 rfl
  · rw [get?_erase_ne _ hk]
    exact (and_iff_right hk).symm

theorem mem_queue_push {d : Odict κ (List α)} {key k : κ} {x y : α} :
    y ∈ (get? (set d key ((get? d key).getD [] ++ [x])) k).getD [] ↔
      y ∈ (get? d k).getD [] ∨ (k = key ∧ y = x) := by
  by_cases hk : k = key
  · rw [hk, get?_set_self, Option.getD_some, List.mem_append, List.mem_singleton]
    exact or_congr_right (and_iff_right rfl).symm
  · rw [get?_set_ne _ hk]
    exact (or_iff_left fun h => hk h.1).symm

end Queues

end Odict

/-- `while len(d) >= cap: d.popitem(last=False)`. The flag says that the loop
reached an empty map with nothing left to pop, which raises. -/
def evictTo {α : Type} (cap : Nat) : List α → List α × Bool
  | [] => ([], cap == 0)
  | x :: xs => if cap ≤ (x :: xs).length then evictTo cap xs else (x :: xs, false)

section Evict

variable {α : Type} {cap : Nat}

theorem evictTo_sublist (cap : Nat) (d : List α) : (evictTo cap d).1.Sublist d := by
  induction d with
  | nil => simp [evictTo]
  | cons x xs ih =>
      rw [evictTo]
      split
      · exact ih.trans (List.sublist_cons_self x xs)
      · exact List.Sublist.refl _

/-- A capacity of zero drains the map and fails. -/
theorem evictTo_zero (d : List α) : evictTo 0 d = ([], true) := by
  induction d with
  | nil => rfl
  | cons x xs ih => rw [evictTo, if_pos (Nat.zero_le _), ih]

/-- Only a capacity of zero drains the map. -/
theorem evictTo_flag (h : 0 < cap) (d : List α) : (evictTo cap d).2 = false := by
  induction d with
  | nil => simp only [evictTo, beq_eq_false_iff_ne]; omega
  | cons x xs ih =>
      rw [evictTo]
      split
      · exact ih
      · rfl

/-- There is room afterwards. -/
theorem evictTo_length_lt (h : 0 < cap) (d : List α) : (evictTo cap d).1.length < cap := by
  induction d with
  | nil => exact h
  | cons x xs ih =>
      rw [evictTo]
      split
      · exact ih
      · next hlt => exact Nat.not_le.mp hlt

/-- A map with room to spare loses nothing. -/
theorem evictTo_of_lt {d : List α} (h : d.length < cap) :
    evictTo cap d = (d, false) := by
  cases d with
  | nil => simp only [evictTo]; congr 1; simp at h ⊢; omega
  | cons x xs => rw [evictTo, if_neg (by omega)]

/-- What is left is the newest items that leave room for one more. -/
theorem evictTo_eq_rtake (h : 0 < cap) (d : List α) :
    (evictTo cap d).1 = d.rtake (cap - 1) := by
  induction d with
  | nil => rw [evictTo, List.rtake_nil]
  | cons x xs ih =>
      rw [evictTo]
      split
      · next hfull =>
          rw [ih, List.rtake, List.rtake]
          rw [List.length_cons] at hfull ⊢
          rw [show xs.length + 1 - (cap - 1) = xs.length - (cap - 1) + 1 by omega,
            List.drop_succ_cons]
      · next hroom =>
          have hzero : (x :: xs).length - (cap - 1) = 0 := by omega
          rw [List.rtake, hzero, List.drop_zero]

end Evict

/-! ### Assigning under a bound

The last items of a list, and the map that keeps its last `cap` items while
it is assigned to. -/

theorem rtake_of_length_le {α : Type} {l : List α} {n : Nat} (h : l.length ≤ n) :
    l.rtake n = l := by
  rw [List.rtake, Nat.sub_eq_zero_of_le h, List.drop_zero]

theorem rtake_rtake {α : Type} (l : List α) {m n : Nat} (h : m ≤ n) :
    (l.rtake n).rtake m = l.rtake m := by
  rw [List.rtake, List.rtake, List.rtake, List.drop_drop, List.length_drop]
  congr 1
  omega

theorem rtake_sublist {α : Type} (l : List α) (n : Nat) : (l.rtake n).Sublist l :=
  List.drop_sublist _ _

namespace Odict

variable {κ ν : Type} [DecidableEq κ] {cap : Nat}

/-- `d[key] = value` in a map of at most `cap` items. The oldest items make
room first, also where the key is there and no room is needed. -/
def push (cap : Nat) (d : Odict κ ν) (key : κ) (value : ν) : Odict κ ν :=
  set (d.rtake (cap - 1)) key value

/-- The items of `new` one after another. -/
def pushAll (cap : Nat) (d new : Odict κ ν) : Odict κ ν :=
  new.foldl (fun d e => push cap d e.1 e.2) d

@[simp] theorem pushAll_nil (d : Odict κ ν) : pushAll cap d [] = d := rfl

@[simp] theorem pushAll_cons (d : Odict κ ν) (e : κ × ν) (new : Odict κ ν) :
    pushAll cap d (e :: new) = pushAll cap (push cap d e.1 e.2) new := rfl

theorem push_eq_evictTo (h : 0 < cap) (d : Odict κ ν) (key : κ) (v : ν) :
    set (evictTo cap d).1 key v = push cap d key v := by
  rw [push, evictTo_eq_rtake h]

/-- Under a new key the item is the last of all, and the last `cap` stay. -/
theorem push_new (h : 0 < cap) {d : Odict κ ν} {key : κ} (hnew : key ∉ keys d) (v : ν) :
    push cap d key v = (d ++ [(key, v)]).rtake cap := by
  have hrest : key ∉ keys (d.rtake (cap - 1)) :=
    fun hk => hnew (((rtake_sublist d (cap - 1)).map _).subset hk)
  rw [push, set_of_not_has (has_of_not_mem hrest)]
  obtain ⟨n, rfl⟩ : ∃ n, cap = n + 1 := ⟨cap - 1, by omega⟩
  rw [List.rtake_concat_succ, Nat.add_sub_cancel]

/-- Under new keys throughout, what is left is the last `cap` of the old items
followed by the new ones. -/
theorem pushAll_new (h : 0 < cap) {d : Odict κ ν} (hd : d.length ≤ cap) {new : Odict κ ν}
    (hnew : (keys new).Nodup) (hdis : ∀ k ∈ keys new, k ∉ keys d) :
    pushAll cap d new = (d ++ new).rtake cap := by
  -- From the back: the last item comes to the store that the others made.
  induction new using List.reverseRecOn with
  | nil => rw [pushAll_nil, List.append_nil, rtake_of_length_le hd]
  | append_singleton init e ih =>
      have hkeys : keys (init ++ [e]) = keys init ++ [e.1] := List.map_append
      rw [hkeys, List.nodup_append] at hnew
      have hinit : pushAll cap d init = (d ++ init).rtake cap :=
        ih hnew.1 fun k hk => hdis k (hkeys ▸ List.mem_append_left _ hk)
      have hold : e.1 ∉ keys ((d ++ init).rtake cap) := by
        intro hmem
        have hmem : e.1 ∈ keys (d ++ init) := ((rtake_sublist _ _).map _).subset hmem
        rw [keys, List.map_append, List.mem_append] at hmem
        rcases hmem with hmem | hmem
        · exact hdis e.1 (hkeys ▸ List.mem_append_right _ List.mem_cons_self) hmem
        · exact hnew.2.2 e.1 hmem e.1 List.mem_cons_self rfl
      calc pushAll cap d (init ++ [e])
          = push cap (pushAll cap d init) e.1 e.2 := List.foldl_append
        _ = ((d ++ init).rtake cap ++ [e]).rtake cap := by rw [hinit, push_new h hold]
        _ = (d ++ (init ++ [e])).rtake cap := by
            obtain ⟨n, rfl⟩ : ∃ n, cap = n + 1 := ⟨cap - 1, by omega⟩
            rw [← List.append_assoc, List.rtake_concat_succ, List.rtake_concat_succ,
              rtake_rtake _ (Nat.le_succ n)]

/-- With room for all of them nothing goes. -/
theorem pushAll_room {d new : Odict κ ν} (hroom : d.length + new.length ≤ cap)
    (hnew : (keys new).Nodup) (hdis : ∀ k ∈ keys new, k ∉ keys d) :
    pushAll cap d new = d ++ new := by
  cases new with
  | nil => rw [pushAll_nil, List.append_nil]
  | cons e rest =>
      have hall : (d ++ e :: rest).length ≤ cap := by rw [List.length_append]; exact hroom
      rw [List.length_cons] at hroom
      rw [pushAll_new (by omega) (by omega) hnew hdis, rtake_of_length_le hall]

end Odict

end GhostChat.Lib
