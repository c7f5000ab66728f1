import GhostChat.Proofs.Secrecy
import GhostChat.Ref.GroupRatchet

/-!
# What members can read together

`Secrecy.lean` asks two questions of one person: what a member reads after he
has left, and what one reads of the time before he came. Members can also put
together what they have. One who left and one who came later hold different
trees, and a leaf secret that is missing from the one may be in the other.

So the question is asked of an arbitrary pool: any states the group has been
in, whoever kept them, and any leaf secrets. The answer does not depend on who
was a member when. A key of some epoch can be computed from the pool exactly
if every leaf of that epoch's tree is in it, as a known secret or as the same
leaf of a tree somebody holds. A leaf secret never moves to another leaf, which
is why only that one place has to be looked at.

Two members who never were in the group at the same time can therefore read an
epoch in which neither of them was a member.
-/

namespace GhostChat.Proofs

open GhostChat.Lib GhostChat.Lib.Effect GhostChat.Ref

/-- What is in a pool of states and leaf secrets. -/
def pooled (held : Set (GroupState SymKey)) (known : Set Atom) : Set SymKey :=
  { t | (∃ s ∈ held, t ∈ stateTerms s) ∨ ∃ x ∈ known, t = .atom x }

/-- The group secret of the epoch, or a key its messages are encrypted with, by
a messenger or by a ratchet. -/
def EpochKey (st : GroupState SymKey) (k : SymKey) : Prop :=
  st.groupSecret = some k ∨ st.applicationKey = some k ∨
    ∃ es index, st.groupSecret = some es ∧
      GroupRatchet.deriveMessageKey symKeys es st.epoch index = .ok k

/-- Every leaf of the tree that somebody handed in a secret for is in the
pool. -/
def Covered (held : Set (GroupState SymKey)) (known : Set Atom) (st : GroupState SymKey) :
    Prop :=
  ∀ l < 4, ∀ y ∈ suppliedAt st l, y ∈ known ∨ ∃ s ∈ held, suppliedAt s l = some y

section Pool

variable {raw : Nat → SymKey} {st : GroupState SymKey} {x : Atom} {k : SymKey}
  {held : Set (GroupState SymKey)} {known : Set Atom} {groupId : Bytes} {home : Atom → Nat}
  {σ σ₀ : GroupRun} {ms : List (Bytes × Atom)} {ops : List (GroupOp Atom)}

/-- A key of the epoch is the group secret, or one derivation away from it. -/
theorem Scheduled.epochKey (h : Scheduled symKeys raw st) (hk : EpochKey st k) :
    ∃ es, st.groupSecret = some es ∧ (k = es ∨ ∃ salt info, k = .kdf es (.lit salt) info 0) := by
  rcases hk with hk | hk | ⟨es, index, hes, hk⟩
  · exact ⟨k, hk, Or.inl rfl⟩
  · obtain ⟨es, -, hgs, hak⟩ := h.secret
    rw [hak] at hk
    exact ⟨es, hgs, Or.inr ⟨_, _, (Option.some.inj hk).symm⟩⟩
  · obtain ⟨e, -, hk⟩ := except_bind_ok hk
    obtain ⟨i, -, hk⟩ := except_bind_ok hk
    injection hk with hk
    exact ⟨es, hes, Or.inr ⟨_, _, hk.symm⟩⟩

/-- A key of the epoch is made from exactly the atoms in its leaves. -/
theorem Scheduled.occurs_epochKey (h : Scheduled symKeys raw st) (hk : EpochKey st k) :
    k.Occurs x ↔ ∃ l < 4, (raw l).Occurs x := by
  obtain ⟨es, hes, hk⟩ := h.epochKey hk
  obtain ⟨es', hes', -, hocc⟩ := h.occurs_secret (x := x)
  obtain rfl : es = es' := Option.some.inj (hes.symm.trans hes')
  rw [← hocc]
  rcases hk with rfl | ⟨salt, info, rfl⟩
  · exact Iff.rfl
  · exact or_iff_left id

/-- Whoever has the four leaf nodes has every key of the epoch. -/
theorem Scheduled.derives_epochKey (h : Scheduled symKeys raw st) (hk : EpochKey st k)
    {S : Set SymKey} (hleaves : ∀ l < 4, Term.Derivable S (leafNode symKeys raw l)) :
    Term.Derivable S k := by
  obtain ⟨es, hes, hk⟩ := h.epochKey hk
  obtain ⟨es', hes', hgs, -⟩ := h.secret
  obtain rfl : es = es' := Option.some.inj (hes.symm.trans hgs)
  obtain ⟨info', rfl⟩ := deriveEpochSecret_ok hes'
  have hnode : ∀ {l r : SymKey} {i : Nat}, Term.Derivable S l → Term.Derivable S r →
      Term.Derivable S (deriveInternalNodeSecret symKeys l r i) :=
    fun hl hr => .kdf _ _ (.cat hl hr) (.lit _)
  have hleft : Term.Derivable S (leftNode symKeys raw) :=
    hnode (hleaves 0 (by decide)) (hleaves 1 (by decide))
  have hright : Term.Derivable S (rightNode symKeys raw) :=
    hnode (hleaves 2 (by decide)) (hleaves 3 (by decide))
  have hsecret : Term.Derivable S (.kdf (rootOf symKeys raw) (.lit st.groupId) info' 0) :=
    .kdf _ _ (hnode hleft hright) (.lit _)
  rcases hk with rfl | ⟨salt, info, rfl⟩
  · exact hsecret
  · exact .kdf _ _ hsecret (.lit _)

/-- An atom in the pool is known, or sits in its leaf of a tree that is
held. -/
theorem GroupBooks.occurs_pooled (h : GroupBooks groupId home σ)
    (hheld : ∀ s ∈ held, s ∈ σ.states) {t : SymKey} (ht : t ∈ pooled held known)
    (hx : t.Occurs x) : x ∈ known ∨ ∃ s ∈ held, suppliedAt s (home x) = some x := by
  rcases ht with ⟨s, hs, ht⟩ | ⟨y, hy, rfl⟩
  · obtain ⟨raw, hsched, -, hfrom⟩ := h s (hheld s hs)
    obtain ⟨l, hl, hxl⟩ := hsched.occurs_stateTerms ht hx
    obtain ⟨-, hraw, hhome⟩ := hfrom.occurs hl hxl
    refine Or.inr ⟨s, hs, ?_⟩
    rw [hhome]
    exact (hsched.suppliedAt_iff hl).mpr hraw
  · obtain rfl : x = y := hx
    exact Or.inl hy

/-- A leaf that is in the pool can be computed. -/
theorem GroupBooks.derives_leaf (h : GroupBooks groupId home σ)
    (hheld : ∀ s ∈ held, s ∈ σ.states) (hraw : LeafFrom groupId home σ.secrets raw) {l : Nat}
    (hl : l < 4) (hcov : ∀ y, raw l = .atom y →
      y ∈ known ∨ ∃ s ∈ held, suppliedAt s l = some y) :
    Term.Derivable (pooled held known) (leafNode symKeys raw l) := by
  rcases hraw l hl with hpad | ⟨y, -, hy, -⟩
  · rw [leafNode, hpad]
    exact .kdf _ _ (.kdf _ _ (.lit _) (.lit _)) (.lit _)
  · rcases hcov y hy with hknown | ⟨s, hs, hsup⟩
    · rw [leafNode, hy]
      exact .kdf _ _ (.known (Or.inr ⟨y, hknown, rfl⟩)) (.lit _)
    · -- The same secret in the same leaf is the same node.
      obtain ⟨raw', hsched', -, -⟩ := h s (hheld s hs)
      have hnode : leafNode symKeys raw l = leafNode symKeys raw' l := by
        rw [leafNode, leafNode, hy, (hsched'.suppliedAt_iff hl).mp hsup]
      refine .known (Or.inl ⟨s, hs, Or.inl ?_⟩)
      rw [hnode, hsched'.tree]
      exact leafNode_mem hl

/-- In every run of a group, a key of any epoch so far can be computed from a
pool of states and leaf secrets exactly if every leaf secret of that epoch is
in the pool. -/
theorem pooled_opens_iff (h₀ : GroupRun.create groupId ms = .ok σ₀)
    (hnd : (ms.map (·.2)).Nodup) (hrun : Along GroupRun.step FreshCall σ₀ ops)
    (hst : st ∈ (runFrom GroupRun.step σ₀ ops).states)
    (hheld : ∀ s ∈ held, s ∈ (runFrom GroupRun.step σ₀ ops).states) (hk : EpochKey st k) :
    Term.Derivable (pooled held known) k ↔ Covered held known st := by
  obtain ⟨home, hbooks⟩ := run_books h₀ hnd hrun
  obtain ⟨raw, hsched, -, hfrom⟩ := hbooks st hst
  constructor
  · intro hder l hl y hy
    have hraw : raw l = .atom y := (hsched.suppliedAt_iff hl).mp hy
    have hocc : (raw l).Occurs y := by
      rw [hraw]
      rfl
    obtain ⟨-, -, hhome⟩ := hfrom.occurs hl hocc
    obtain ⟨t, ht, hyt⟩ := hder.occurs ((hsched.occurs_epochKey hk).mpr ⟨l, hl, hocc⟩)
    rw [← hhome]
    exact hbooks.occurs_pooled hheld ht hyt
  · intro hcov
    refine hsched.derives_epochKey hk fun l hl => ?_
    exact hbooks.derives_leaf hheld hfrom hl fun y hy =>
      hcov l hl y ((hsched.suppliedAt_iff hl).mpr hy)

end Pool

/-- Two removals from a group of four. -/
def twoRemovals : List (GroupOp Atom) := [.remove [4] (.secret 5), .remove [3] (.secret 6)]

/-- The group after `n` of them. -/
def afterRemovals (n : Nat) : GroupRun :=
  runFrom GroupRun.step (sampleGroup 4) (twoRemovals.take n)

/-- Member 4 kept the state of epoch 1 and is gone from epoch 2 on; somebody
else has the state of epoch 3 only. Neither can read epoch 2, and together they
can. -/
theorem pooled_opens_twoRemovals : ∃ k, EpochKey (afterRemovals 1).state k ∧
    ¬ Term.Derivable (pooled {(afterRemovals 0).state} ∅) k ∧
    ¬ Term.Derivable (pooled {(afterRemovals 2).state} ∅) k ∧
    Term.Derivable (pooled {(afterRemovals 0).state, (afterRemovals 2).state} ∅) k := by
  have hrun : Along GroupRun.step FreshCall (sampleGroup 4) twoRemovals := by decide +kernel
  have hstates : (runFrom GroupRun.step (sampleGroup 4) twoRemovals).states
      = [(afterRemovals 2).state, (afterRemovals 1).state, (afterRemovals 0).state] := rfl
  have hkey : (afterRemovals 1).state.applicationKey.isSome = true := by decide +kernel
  obtain ⟨k, hk⟩ := Option.isSome_iff_exists.mp hkey
  have hopen : ∀ {held}, held ⊆ {(afterRemovals 0).state, (afterRemovals 2).state} →
      (Term.Derivable (pooled held ∅) k ↔ Covered held ∅ (afterRemovals 1).state) := by
    intro held hsub
    refine pooled_opens_iff (sampleGroup_created 4 (by decide)) (by decide) hrun ?_ ?_
      (Or.inr (Or.inl hk))
    · simp [hstates]
    · intro s hs
      rcases hsub hs with rfl | rfl <;> simp [hstates]
  refine ⟨k, Or.inr (Or.inl hk), ?_, ?_, ?_⟩
  · intro hder
    have hleaf : suppliedAt (afterRemovals 1).state 3 = some (.secret 5) := by decide +kernel
    rcases (hopen (by simp)).mp hder 3 (by decide) _ hleaf with hnone | ⟨s, rfl, hs⟩
    · exact hnone
    · exact absurd hs (by decide +kernel)
  · intro hder
    have hleaf : suppliedAt (afterRemovals 1).state 2 = some (.secret 3) := by decide +kernel
    rcases (hopen (by simp)).mp hder 2 (by decide) _ hleaf with hnone | ⟨s, rfl, hs⟩
    · exact hnone
    · exact absurd hs (by decide +kernel)
  · refine (hopen subset_rfl).mpr fun l hl y hy => Or.inr ?_
    have hone : ∀ l < 4, suppliedAt (afterRemovals 1).state l
        = suppliedAt (afterRemovals 0).state l ∨ suppliedAt (afterRemovals 1).state l
          = suppliedAt (afterRemovals 2).state l := by decide +kernel
    rcases hone l hl with h | h
    · exact ⟨_, Or.inl rfl, h.symm.trans hy⟩
    · exact ⟨_, Or.inr rfl, h.symm.trans hy⟩

end GhostChat.Proofs
