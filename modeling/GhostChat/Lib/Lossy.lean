import GhostChat.Lib.Window

/-!
# Deliveries in order, with losses

A sender numbers its items on each line from zero, without a gap, on several
lines in turn. Whoever is handed the items in the order they were sent, but not
all of them, jumps over those that were lost and over no others. So when the
next item comes no more items are pending than were lost, and the item is no
further ahead on its line than that.

`T ++ e :: U` is what was sent, `e` is the next to be delivered, and `D` is what
was delivered before it, newest first.
-/

namespace GhostChat.Lib.Window

variable {ι : Type} [DecidableEq ι] {S T U D : List (ι × Nat)} {e : ι × Nat}

/-- The numbers on each line count up from zero. -/
def Numbered (S : List (ι × Nat)) : Prop :=
  ∀ d, ∃ k, (S.filter fun e => e.1 = d).map Prod.snd = List.range k

theorem mem_line {d : ι} {i : Nat} :
    i ∈ (S.filter fun e => e.1 = d).map Prod.snd ↔ (d, i) ∈ S := by
  simp only [List.mem_map, List.mem_filter, decide_eq_true_eq]
  constructor
  · intro h
    obtain ⟨x, ⟨hx, hline⟩, hnumber⟩ := h
    rwa [← hline, ← hnumber]
  · intro h
    exact ⟨_, ⟨h, rfl⟩, rfl⟩

/-- Before an item stand exactly the lower numbers of its line. -/
theorem Numbered.before (h : Numbered (T ++ e :: U)) (i : Nat) :
    (e.1, i) ∈ T ↔ i < e.2 := by
  obtain ⟨k, hk⟩ := h e.1
  rw [List.filter_append, List.filter_cons_of_pos (by simp), List.map_append,
    List.map_cons] at hk
  let below := (T.filter fun x => x.1 = e.1).map Prod.snd
  have hlength : below.length < k := by
    have hall := congrArg List.length hk
    simp only [List.length_append, List.length_cons, List.length_range] at hall
    show ((T.filter fun x => x.1 = e.1).map Prod.snd).length < k
    omega
  have hnumber : e.2 = below.length := by
    have hat := congrArg (fun l => l[below.length]?) hk
    simp only [below, List.getElem?_append_right (Nat.le_refl _), Nat.sub_self,
      List.getElem?_cons_zero] at hat
    rw [List.getElem?_range hlength] at hat
    exact Option.some.inj hat
  have hbelow : below = List.range e.2 := by
    have hat := congrArg (List.take below.length) hk
    rw [List.take_left, List.take_range, Nat.min_eq_left hlength.le] at hat
    rw [hnumber]
    exact hat
  rw [← mem_line, show (T.filter fun x => x.1 = e.1).map Prod.snd = below from rfl, hbelow,
    List.mem_range]

/-- No item is sent twice. -/
theorem Numbered.nodup (h : Numbered S) : S.Nodup := by
  rw [List.nodup_iff_pairwise_ne, List.pairwise_iff_getElem]
  intro i j hi hj hij heq
  have hsplit : S = S.take j ++ S[j] :: S.drop (j + 1) := by simp
  have hbefore := Numbered.before (hsplit ▸ h) S[j].2
  have hmem : S[j] ∈ S.take j := by
    rw [← heq]
    exact List.mem_take_iff_getElem.mpr ⟨i, by omega, rfl⟩
  exact absurd (hbefore.mp hmem) (Nat.lt_irrefl _)

/-- A delivered item cuts both lists, what was delivered and what was sent. -/
theorem sublist_cut {α : Type} {A R L : List α} {x : α} (h : (A ++ x :: R).Sublist L) :
    ∃ T U, L = T ++ x :: U ∧ A.Sublist T ∧ R.Sublist U := by
  obtain ⟨L₁, L₂, rfl, hA, htail⟩ := List.append_sublist_iff.mp h
  obtain ⟨M₁, M₂, rfl, hx, hR⟩ := List.cons_sublist_iff.mp htail
  obtain ⟨V, W, rfl⟩ := List.append_of_mem hx
  refine ⟨L₁ ++ V, W ++ M₂, by simp, ?_, ?_⟩
  · exact hA.trans (List.sublist_append_left L₁ V)
  · exact hR.trans (List.sublist_append_right W M₂)

section Next

variable (hsent : Numbered (T ++ e :: U)) (hdelivered : D.reverse.Sublist T)

include hsent hdelivered

/-- The next item has not come before. -/
theorem next_new : e ∉ D := by
  intro h
  have hbefore : e ∈ T := hdelivered.subset (List.mem_reverse.mpr h)
  exact absurd ((hsent.before e.2).mp hbefore) (Nat.lt_irrefl _)

/-- Pending after it are some of those that were lost. -/
theorem card_pending_next : (pending (e :: D)).card ≤ T.length - D.length := by
  have hnodup : T.Nodup := hsent.nodup.sublist (List.sublist_append_left T _)
  have hD : D ⊆ T := by
    intro x hx
    exact hdelivered.subset (List.mem_reverse.mpr hx)
  have hlost : pending (e :: D) ⊆ T.toFinset \ D.toFinset := by
    intro id hid
    obtain ⟨hnot, n, hn, hmem⟩ := mem_pending.mp hid
    rw [Finset.mem_sdiff, List.mem_toFinset, List.mem_toFinset]
    refine ⟨?_, fun h => hnot (List.mem_cons_of_mem _ h)⟩
    rcases List.mem_cons.mp hmem with heq | hmem
    · -- It lies below the next item.
      have hbefore := (hsent.before id.2).mpr (by rw [← heq]; exact hn)
      rwa [← heq] at hbefore
    · -- It lies below one that was delivered.
      obtain ⟨T₁, T₂, hT⟩ := List.append_of_mem (hD hmem)
      rw [hT, List.append_assoc, List.cons_append] at hsent
      have hbefore := (hsent.before id.2).mpr hn
      rw [hT]
      exact List.mem_append_left _ hbefore
  have hD' : D.Nodup := List.nodup_reverse.mp (hnodup.sublist hdelivered)
  calc (pending (e :: D)).card
      ≤ (T.toFinset \ D.toFinset).card := Finset.card_le_card hlost
    _ = T.toFinset.card - D.toFinset.card :=
        Finset.card_sdiff_of_subset fun x hx =>
          List.mem_toFinset.mpr (hD (List.mem_toFinset.mp hx))
    _ = T.length - D.length := by
        rw [List.toFinset_card_of_nodup hnodup, List.toFinset_card_of_nodup hD']

/-- It is as far ahead on its line as items were lost, at most. -/
theorem next_ahead : e.2 ≤ nextExpected D e.1 + (T.length - D.length) := by
  by_cases h : nextExpected D e.1 ≤ e.2
  · have hcard := card_pending_next hsent hdelivered
    have hahead := card_pending_ahead h
    rw [show (e.1, e.2) = e from rfl] at hahead
    omega
  · omega

end Next

end GhostChat.Lib.Window
