import GhostChat.Proofs.Group
import GhostChat.Ref.Symbolic

/-!
# Who can read which epoch

Leaf secrets are atoms here and HKDF is a constructor, so a key gives away
nothing but itself, and the whole question is which leaf secrets went into
which application key.

A member who leaves has seen every state up to then and every leaf secret
handed in so far. His leaf is overwritten with a secret he has not seen, and
whatever is done to the tree later, that leaf holds a secret younger than his
leaving (`Younger`). So every later key contains an atom he has no term with.

A member who joins gets the tree as it is after the join. An earlier epoch is
closed to him exactly if one of the secrets that were in its tree is no longer
in the tree he gets. Padding does not count: it is derived from the group id,
and anybody can do that. A group of three that takes in a fourth therefore
opens its whole first epoch to him, because all that was overwritten is a leaf
of padding.
-/

namespace GhostChat.Proofs

open GhostChat.Lib GhostChat.Lib.Effect GhostChat.Ref

/-! ## Groups over time -/

/-- A group, its states of earlier epochs (newest first), and the leaf
secrets handed in so far. -/
structure GroupRun where
  state : GroupState SymKey
  past : List (GroupState SymKey)
  secrets : List Atom

/-- A membership change with an atom for its leaf secret. -/
def symbolicOp : GroupOp Atom → GroupOp SymKey
  | .add pk x => .add pk (.atom x)
  | .remove pk x => .remove pk (.atom x)

/-- `GroupState.create` with one atom for every member. -/
def GroupRun.create (groupId : Bytes) (ms : List (Bytes × Atom)) : Except Exn GroupRun := do
  let st ← GroupState.create symKeys groupId (ms.map fun m => (m.1, .atom m.2))
  return { state := st, past := [], secrets := ms.map (·.2) }

def GroupRun.step (σ : GroupRun) (op : GroupOp Atom) : GroupRun where
  state := after (σ.state.call symKeys (symbolicOp op))
  past := σ.state :: σ.past
  secrets := op.secret :: σ.secrets

/-- The call returns, and its leaf secret was never used before. -/
def FreshCall (σ : GroupRun) (op : GroupOp Atom) : Prop :=
  (value? (σ.state.call symKeys (symbolicOp op))).isSome = true ∧
    op.secret ∉ σ.secrets

instance FreshCall.decidable (σ : GroupRun) (op : GroupOp Atom) :
    Decidable (FreshCall σ op) := inferInstanceAs (Decidable (_ ∧ _))

/-- Every state the group has been in. -/
def GroupRun.states (σ : GroupRun) : List (GroupState SymKey) := σ.state :: σ.past

/-- The members 1, 2, ..., `n` with secrets 1, 2, ..., `n`, and the group
`create` makes of them, for the examples. -/
def sampleMembers (n : Nat) : List (Bytes × Atom) :=
  (List.range' 1 n).map fun i => ([UInt8.ofNat i], .secret i)

def sampleGroup (n : Nat) : GroupRun :=
  match GroupRun.create [7] (sampleMembers n) with
  | .ok σ => σ
  | .error _ => ⟨⟨[], 0, ⟨[], 0⟩, [], none, none, none⟩, [], []⟩

theorem sampleGroup_created (n : Nat) (hn : n = 3 ∨ n = 4) :
    GroupRun.create [7] (sampleMembers n) = .ok (sampleGroup n) := by
  rcases hn with rfl | rfl <;> rfl

/-! ## What is in a state -/

/-- The secrets in a state: what whoever is handed it holds. -/
def stateTerms (st : GroupState SymKey) : Set SymKey :=
  { t | some t ∈ st.tree.nodeSecrets ∨ st.groupSecret = some t ∨
    st.applicationKey = some t ∨ st.groupHash = some t }

section Scheduled

variable {raw raw' : Nat → SymKey} {st : GroupState SymKey} {x : Atom} {k : SymKey}

theorem deriveEpochSecret_ok {root es : SymKey} {epoch : Nat} {groupId : Bytes}
    (h : deriveEpochSecret symKeys root epoch groupId = .ok es) :
    ∃ info, es = .kdf root (.lit groupId) info 0 := by
  obtain ⟨e, -, h⟩ := except_bind_ok h
  injection h with h
  exact ⟨_, h.symm⟩

theorem deriveGroupHash_ok {root gh : SymKey} {epoch : Nat} {groupId : Bytes}
    {ids : List Bytes} (h : deriveGroupHash symKeys groupId epoch ids root = .ok gh) :
    ∃ payload salt info, gh = .kdf (.cat (.lit payload) root) (.lit salt) info 0 := by
  obtain ⟨e, -, h⟩ := except_bind_ok h
  injection h with h
  exact ⟨_, _, _, h.symm⟩

theorem occurs_rootOf : (rootOf symKeys raw).Occurs x ↔ ∃ l < 4, (raw l).Occurs x := by
  have hroot : (rootOf symKeys raw).Occurs x ↔ ((raw 0).Occurs x ∨ (raw 1).Occurs x) ∨
      ((raw 2).Occurs x ∨ (raw 3).Occurs x) := by
    simp [rootOf, leftNode, rightNode, leafNode, deriveInternalNodeSecret,
      deriveLeafNodeSecret, symKeys, Term.Occurs]
  rw [hroot]
  constructor
  · rintro ((h | h) | (h | h))
    exacts [⟨0, by decide, h⟩, ⟨1, by decide, h⟩, ⟨2, by decide, h⟩, ⟨3, by decide, h⟩]
  · rintro ⟨l, hl, h⟩
    interval_cases l
    exacts [Or.inl (Or.inl h), Or.inl (Or.inr h), Or.inr (Or.inl h), Or.inr (Or.inr h)]

/-- A key of the schedule is made from the root, the root from the leaf
secrets. -/
theorem Scheduled.occurs_secret (h : Scheduled symKeys raw st) :
    ∃ es, st.groupSecret = some es ∧
      st.applicationKey = some (deriveApplicationKey symKeys es) ∧
      (es.Occurs x ↔ ∃ l < 4, (raw l).Occurs x) := by
  obtain ⟨es, hes, hgs, hak⟩ := h.secret
  refine ⟨es, hgs, hak, ?_⟩
  obtain ⟨info, rfl⟩ := deriveEpochSecret_ok hes
  rw [← occurs_rootOf]
  exact or_iff_left id

theorem occurs_applicationKey {es : SymKey} :
    (deriveApplicationKey symKeys es).Occurs x ↔ es.Occurs x := or_iff_left id

/-- Whatever a state holds is made from its leaf secrets. -/
theorem Scheduled.occurs_stateTerms (h : Scheduled symKeys raw st) {t : SymKey}
    (ht : t ∈ stateTerms st) (hx : t.Occurs x) : ∃ l < 4, (raw l).Occurs x := by
  obtain ⟨es, hgs, hak, hocc⟩ := h.occurs_secret (x := x)
  rcases ht with hnode | hgs' | hak' | hgh
  · have hleaf : ∀ l < 4, (leafNode symKeys raw l).Occurs x → ∃ l < 4, (raw l).Occurs x :=
      fun l hl hl' => ⟨l, hl, hl'.elim id False.elim⟩
    have hleft : (leftNode symKeys raw).Occurs x → ∃ l < 4, (raw l).Occurs x := by
      rintro ((h | h) | h)
      exacts [hleaf 0 (by decide) h, hleaf 1 (by decide) h, h.elim]
    have hright : (rightNode symKeys raw).Occurs x → ∃ l < 4, (raw l).Occurs x := by
      rintro ((h | h) | h)
      exacts [hleaf 2 (by decide) h, hleaf 3 (by decide) h, h.elim]
    rw [h.tree] at hnode
    simp only [treeOf, List.mem_cons, Option.some.injEq, List.not_mem_nil, or_false] at hnode
    rcases hnode with rfl | rfl | rfl | rfl | rfl | rfl | rfl
    exacts [occurs_rootOf.mp hx, hleft hx, hright hx, hleaf 0 (by decide) hx,
      hleaf 1 (by decide) hx, hleaf 2 (by decide) hx, hleaf 3 (by decide) hx]
  · rw [hgs] at hgs'
    rw [← Option.some.inj hgs'] at hx
    exact hocc.mp hx
  · rw [hak] at hak'
    rw [← Option.some.inj hak', occurs_applicationKey] at hx
    exact hocc.mp hx
  · obtain ⟨gh, hgh₁, hgh₂⟩ := h.hash
    obtain ⟨payload, salt, info, rfl⟩ := deriveGroupHash_ok hgh₁
    rw [hgh₂] at hgh
    rw [← Option.some.inj hgh] at hx
    rcases hx with (hx | hx) | hx
    exacts [hx.elim, occurs_rootOf.mp hx, hx.elim]

/-- Whoever has the four leaf nodes has the application key. -/
theorem Scheduled.derives_key (h : Scheduled symKeys raw st) {S : Set SymKey}
    (hleaves : ∀ l < 4, Term.Derivable S (leafNode symKeys raw l))
    (hk : st.applicationKey = some k) : Term.Derivable S k := by
  obtain ⟨es, hes, -, hak⟩ := h.secret
  obtain ⟨info, rfl⟩ := deriveEpochSecret_ok hes
  rw [hak] at hk
  rw [← Option.some.inj hk]
  have hnode : ∀ {l r : SymKey} {i : Nat}, Term.Derivable S l → Term.Derivable S r →
      Term.Derivable S (deriveInternalNodeSecret symKeys l r i) :=
    fun hl hr => .kdf _ _ (.cat hl hr) (.lit _)
  have hroot : Term.Derivable S (rootOf symKeys raw) :=
    hnode (hnode (hleaves 0 (by decide)) (hleaves 1 (by decide)))
      (hnode (hleaves 2 (by decide)) (hleaves 3 (by decide)))
  exact .kdf _ _ (.kdf _ _ hroot (.lit _)) (.lit _)

end Scheduled

/-! ## What holds along a run -/

/-- A leaf holds padding, or a secret that was handed in for that leaf. -/
def LeafFrom (groupId : Bytes) (home : Atom → Nat) (secrets : List Atom) (raw : Nat → SymKey) :
    Prop :=
  ∀ l < 4, raw l = paddingSecret symKeys groupId l ∨
    ∃ x ∈ secrets, raw l = .atom x ∧ home x = l

/-- Every state there was is scheduled by secrets that were handed in, each of
them in one leaf for good. -/
def GroupBooks (groupId : Bytes) (home : Atom → Nat) (σ : GroupRun) : Prop :=
  ∀ st ∈ σ.states, ∃ raw, Scheduled symKeys raw st ∧ st.groupId = groupId ∧
    LeafFrom groupId home σ.secrets raw

section Run

variable {groupId : Bytes} {home : Atom → Nat} {σ : GroupRun} {op : GroupOp Atom}
  {ms : List (Bytes × Atom)}

theorem paddingSecret_occurs {l : Nat} {x : Atom} :
    ¬ (paddingSecret symKeys groupId l).Occurs x := fun h => h.elim id id

/-- An atom in a leaf is the secret handed in for it. -/
theorem LeafFrom.occurs {secrets : List Atom} {raw : Nat → SymKey}
    (h : LeafFrom groupId home secrets raw) {l : Nat} (hl : l < 4) {x : Atom}
    (hx : (raw l).Occurs x) : x ∈ secrets ∧ raw l = .atom x ∧ home x = l := by
  rcases h l hl with hpad | ⟨y, hy, hraw, hhome⟩
  · rw [hpad] at hx
    exact absurd hx paddingSecret_occurs
  · rw [hraw] at hx
    obtain rfl : x = y := hx
    exact ⟨hy, hraw, hhome⟩

theorem secret_symbolicOp : (symbolicOp op).secret = .atom op.secret := by
  cases op <;> rfl

theorem FreshCall.returns (h : FreshCall σ op) :
    σ.state.call symKeys (symbolicOp op) = .ok () (σ.step op).state := by
  have h₁ := h.1
  unfold GroupRun.step
  cases hr : σ.state.call symKeys (symbolicOp op) with
  | ok u st => rfl
  | error e st => rw [hr] at h₁; cases h₁

theorem create_books (h : GroupRun.create groupId ms = .ok σ) (hnd : (ms.map (·.2)).Nodup) :
    GroupBooks groupId (fun x => (ms.map (·.2)).idxOf x) σ := by
  obtain ⟨st, hst, h⟩ := except_bind_ok h
  injection h with h
  subst h
  obtain ⟨hsched, hgid, -, -⟩ := create_scheduled hst
  intro st' hmem
  obtain rfl : st' = st := by simpa [GroupRun.states] using hmem
  refine ⟨_, hsched, hgid, fun l hl => ?_⟩
  rw [initialLeaves, List.getElem?_map]
  cases hm : ms[l]? with
  | none => exact Or.inl rfl
  | some m =>
      obtain ⟨hlt, hm⟩ := List.getElem?_eq_some_iff.mp hm
      refine Or.inr ⟨m.2, List.mem_map.mpr ⟨m, hm ▸ List.getElem_mem hlt, rfl⟩, rfl, ?_⟩
      have hl' : l < (ms.map (·.2)).length := by simpa using hlt
      have hget : (ms.map (·.2))[l] = m.2 := by simp [hm]
      rw [← hget]
      exact hnd.idxOf_getElem l hl'

/-- What a call that returns does to the leaf secrets. -/
theorem GroupBooks.call (h : GroupBooks groupId home σ) (hop : FreshCall σ op) :
    ∃ raw l, Scheduled symKeys raw σ.state ∧ LeafFrom groupId home σ.secrets raw ∧
      writtenLeaf σ.state (symbolicOp op) = some l ∧ l < 4 ∧
      Scheduled symKeys (Function.update raw l (.atom op.secret)) (σ.step op).state ∧
      (σ.step op).state.groupId = groupId := by
  obtain ⟨raw, hsched, hgid, hfrom⟩ := h σ.state List.mem_cons_self
  obtain ⟨l, hwritten, hl, hsched', hgid', -⟩ := call_ok hsched hop.returns
  rw [secret_symbolicOp] at hsched'
  exact ⟨raw, l, hsched, hfrom, hwritten, hl, hsched', hgid'.trans hgid⟩

/-- A fresh secret finds its home and disturbs no other. -/
theorem GroupBooks.step (h : GroupBooks groupId home σ) (hop : FreshCall σ op) :
    ∃ home', GroupBooks groupId home' (σ.step op) := by
  obtain ⟨raw, l, hsched, hfrom, -, hl, hsched', hgid⟩ := h.call hop
  refine ⟨Function.update home op.secret l, fun st hst => ?_⟩
  have hkeep : ∀ {raw}, LeafFrom groupId home σ.secrets raw →
      LeafFrom groupId (Function.update home op.secret l) (σ.step op).secrets raw := by
    intro raw hraw l' hl'
    refine (hraw l' hl').imp_right ?_
    rintro ⟨x, hx, hrawl, hhome⟩
    have hne : x ≠ op.secret := fun he => hop.2 (he ▸ hx)
    exact ⟨x, List.mem_cons_of_mem _ hx, hrawl, by rw [Function.update_of_ne hne, hhome]⟩
  rcases List.mem_cons.mp hst with rfl | hst
  · refine ⟨_, hsched', hgid, fun l' hl' => ?_⟩
    by_cases he : l' = l
    · subst he
      exact Or.inr ⟨op.secret, List.mem_cons_self, by rw [Function.update_self],
        by rw [Function.update_self]⟩
    · rw [Function.update_of_ne he]
      exact hkeep hfrom l' hl'
  · obtain ⟨raw', hsched'', hgid', hfrom'⟩ := h st hst
    exact ⟨raw', hsched'', hgid', hkeep hfrom'⟩

theorem run_books {σ₀ : GroupRun} (h₀ : GroupRun.create groupId ms = .ok σ₀)
    (hnd : (ms.map (·.2)).Nodup) {ops : List (GroupOp Atom)}
    (hrun : Along GroupRun.step FreshCall σ₀ ops) :
    ∃ home, GroupBooks groupId home (runFrom GroupRun.step σ₀ ops) :=
  Along.invariant (I := fun σ => ∃ home, GroupBooks groupId home σ)
    (fun _ _ ⟨_, h⟩ hop => h.step hop) ⟨_, create_books h₀ hnd⟩ hrun

end Run

/-! ## Leaving -/

/-- What a member who has seen everything so far holds: every state, and
every leaf secret. -/
def leaverTerms (σ : GroupRun) : Set SymKey :=
  { t | (∃ st ∈ σ.states, t ∈ stateTerms st) ∨ ∃ x ∈ σ.secrets, t = .atom x }

/-- Leaf `l` holds a secret that is not among `old`, and neither is any to
come. -/
def Younger (old : List Atom) (l : Nat) (σ : GroupRun) : Prop :=
  old ⊆ σ.secrets ∧ l < 4 ∧
    ∃ raw, Scheduled symKeys raw σ.state ∧ ∃ z, raw l = .atom z ∧ z ∉ old

section Leaving

variable {groupId : Bytes} {home : Atom → Nat} {σ σ₀ : GroupRun} {op : GroupOp Atom}
  {ms : List (Bytes × Atom)} {ops later : List (GroupOp Atom)} {old : List Atom} {l : Nat}

theorem leaverTerms_occurs (h : GroupBooks groupId home σ) {t : SymKey}
    (ht : t ∈ leaverTerms σ) {x : Atom} (hx : t.Occurs x) : x ∈ σ.secrets := by
  rcases ht with ⟨st, hst, ht⟩ | ⟨y, hy, rfl⟩
  · obtain ⟨raw, hsched, -, hfrom⟩ := h st hst
    obtain ⟨l, hl, hxl⟩ := hsched.occurs_stateTerms ht hx
    exact (hfrom.occurs hl hxl).1
  · obtain rfl : x = y := hx
    exact hy

/-- A younger secret stays, or gives way to a still younger one. -/
theorem Younger.step (h : Younger old l σ) (hop : FreshCall σ op) :
    Younger old l (σ.step op) := by
  obtain ⟨hold, hl, raw, hsched, z, hz, hnew⟩ := h
  obtain ⟨l', -, -, hsched', -, -⟩ := call_ok hsched hop.returns
  rw [secret_symbolicOp] at hsched'
  refine ⟨fun x hx => List.mem_cons_of_mem _ (hold hx), hl, _, hsched', ?_⟩
  by_cases he : l = l'
  · subst he
    exact ⟨op.secret, Function.update_self .., fun hmem => hop.2 (hold hmem)⟩
  · exact ⟨z, by rw [Function.update_of_ne he, hz], hnew⟩

/-- Right after a removal the member's own leaf is the one. -/
theorem GroupBooks.younger (h : GroupBooks groupId home σ) (hop : FreshCall σ op) :
    ∃ l, Younger σ.secrets l (σ.step op) := by
  obtain ⟨raw, l, -, -, -, hl, hsched', -⟩ := h.call hop
  exact ⟨l, fun x hx => List.mem_cons_of_mem _ hx, hl, _, hsched', op.secret,
    Function.update_self .., hop.2⟩

theorem Younger.key_secret (h : Younger σ₀.secrets l σ) (h₀ : GroupBooks groupId home σ₀) :
    ∃ k, σ.state.applicationKey = some k ∧ ¬ Term.Derivable (leaverTerms σ₀) k := by
  obtain ⟨-, hl, raw, hsched, z, hz, hnew⟩ := h
  obtain ⟨es, -, hak, hocc⟩ := hsched.occurs_secret (x := z)
  refine ⟨_, hak, fun hder => ?_⟩
  have hz : (deriveApplicationKey symKeys es).Occurs z :=
    occurs_applicationKey.mpr (hocc.mpr ⟨l, hl, by rw [hz]; rfl⟩)
  obtain ⟨t, ht, htz⟩ := hder.occurs hz
  exact hnew (leaverTerms_occurs h₀ ht htz)

/-- A member removed by the step to some epoch cannot compute the application
key of that epoch or of any later one from everything there was before it. -/
theorem removed_member_shut_out (h₀ : GroupRun.create groupId ms = .ok σ₀)
    (hnd : (ms.map (·.2)).Nodup) (hrun : Along GroupRun.step FreshCall σ₀ ops) {pk : Bytes}
    {r : Atom} (hrem : FreshCall (runFrom GroupRun.step σ₀ ops) (.remove pk r))
    (hlater : Along GroupRun.step FreshCall
      ((runFrom GroupRun.step σ₀ ops).step (.remove pk r)) later) :
    ∃ k, (runFrom GroupRun.step ((runFrom GroupRun.step σ₀ ops).step (.remove pk r))
        later).state.applicationKey = some k ∧
      ¬ Term.Derivable (leaverTerms (runFrom GroupRun.step σ₀ ops)) k := by
  obtain ⟨home, hbooks⟩ := run_books h₀ hnd hrun
  obtain ⟨l, hyounger⟩ := hbooks.younger hrem
  have hend := Along.invariant (fun _ _ h hop => Younger.step h hop) hyounger hlater
  exact hend.key_secret hbooks

/-- Member 2 of a group of three is removed; a fourth and a fifth member come,
and the leaf the removal wrote is not the one the fourth gets. -/
theorem removed_member_shut_out_three :
    ∃ k, (runFrom GroupRun.step ((sampleGroup 3).step (.remove [2] (.secret 4)))
        [.add [4] (.secret 5), .add [5] (.secret 6)]).state.applicationKey = some k ∧
      ¬ Term.Derivable (leaverTerms (sampleGroup 3)) k := by
  have hrun : Along GroupRun.step FreshCall (sampleGroup 3) [] := trivial
  exact removed_member_shut_out (sampleGroup_created 3 (by decide)) (by decide) hrun
    (by decide +kernel) (by decide +kernel)

end Leaving

/-! ## Joining -/

/-- What a new member holds: the state after the join and its own secret. -/
def joinerTerms (st : GroupState SymKey) (x : Atom) : Set SymKey :=
  { t | t ∈ stateTerms st ∨ t = .atom x }

/-- The secret that was handed in for leaf `l`; none where there is
padding. -/
def suppliedAt (st : GroupState SymKey) (l : Nat) : Option Atom :=
  match st.tree.nodeSecrets[st.tree.leafNodeIndex l]? with
  | some (some (.kdf (.atom x) _ _ _)) => some x
  | _ => none

/-- For every epoch so far, a leaf that then held a secret somebody handed in
is the one the next member gets, or holds another secret by now. -/
def Overwritten (σ : GroupRun) : Prop :=
  ∀ st ∈ σ.states, ∃ l < 4, (suppliedAt st l).isSome = true ∧
    (l = σ.state.members.length ∨ suppliedAt σ.state l ≠ suppliedAt st l)

instance Overwritten.decidable (σ : GroupRun) : Decidable (Overwritten σ) :=
  inferInstanceAs (Decidable (∀ st ∈ σ.states, ∃ l < 4, _ ∧ _))

section Joining

variable {groupId : Bytes} {home : Atom → Nat} {σ σ₀ : GroupRun} {ms : List (Bytes × Atom)}
  {ops : List (GroupOp Atom)} {raw : Nat → SymKey} {st : GroupState SymKey} {l : Nat}
  {pk : Bytes} {x : Atom}

theorem Scheduled.suppliedAt_iff (h : Scheduled symKeys raw st) (hl : l < 4) {y : Atom} :
    suppliedAt st l = some y ↔ raw l = .atom y := by
  have hnode : st.tree.nodeSecrets[st.tree.leafNodeIndex l]?
      = some (some (leafNode symKeys raw l)) := by
    rw [h.tree]
    interval_cases l <;> rfl
  rw [suppliedAt, hnode]
  simp only [leafNode, deriveLeafNodeSecret, symKeys]
  cases raw l <;> simp

theorem leafNode_mem (hl : l < 4) :
    some (leafNode symKeys raw l) ∈ (treeOf symKeys raw).nodeSecrets := by
  interval_cases l <;> simp [treeOf]

/-- A leaf that was not overwritten is in the tree the new member gets, and
padding is no secret: if nothing else was in an epoch's tree, its key can be
computed. -/
theorem GroupBooks.open_epoch (h : GroupBooks groupId home σ)
    (hop : FreshCall σ (.add pk x)) (hst : st ∈ σ.states)
    (hkept : ¬ ∃ l < 4, (suppliedAt st l).isSome = true ∧
      (l = σ.state.members.length ∨ suppliedAt σ.state l ≠ suppliedAt st l)) {k : SymKey}
    (hk : st.applicationKey = some k) :
    Term.Derivable (joinerTerms (σ.step (.add pk x)).state x) k := by
  obtain ⟨raw, hsched, -, hfrom⟩ := h st hst
  obtain ⟨cur, m, hcur, -, hwritten, -, hpost, -⟩ := h.call hop
  refine hsched.derives_key (fun l hl => ?_) hk
  rcases hfrom l hl with hpad | ⟨y, -, hy, -⟩
  · rw [leafNode, hpad]
    exact .kdf _ _ (.kdf _ _ (.lit _) (.lit _)) (.lit _)
  · -- The leaf holds the same secret after the join.
    have hsup : suppliedAt st l = some y := (hsched.suppliedAt_iff hl).mpr hy
    have hnot : ¬ (l = σ.state.members.length ∨ suppliedAt σ.state l ≠ suppliedAt st l) :=
      fun hor => hkept ⟨l, hl, by rw [hsup]; rfl, hor⟩
    rw [not_or, not_ne_iff] at hnot
    have hcury : cur l = .atom y := (hcur.suppliedAt_iff hl).mp (hnot.2.trans hsup)
    have hne : l ≠ m := fun he => hnot.1 (he.trans (Option.some.inj hwritten).symm)
    have hleaf : leafNode symKeys raw l = leafNode symKeys
        (Function.update cur m (.atom (GroupOp.add pk x).secret)) l := by
      rw [leafNode, leafNode, Function.update_of_ne hne, hcury, hy]
    refine .known (Or.inl (Or.inl ?_))
    rw [hleaf, hpost.tree]
    exact leafNode_mem hl

/-- A secret that is not in the tree any more is in nothing the new member
holds. -/
theorem GroupBooks.closed_epoch (h : GroupBooks groupId home σ)
    (hop : FreshCall σ (.add pk x)) (hst : st ∈ σ.states) (hl : l < 4)
    (hsup : (suppliedAt st l).isSome = true)
    (hover : l = σ.state.members.length ∨ suppliedAt σ.state l ≠ suppliedAt st l)
    {k : SymKey} (hk : st.applicationKey = some k) :
    ¬ Term.Derivable (joinerTerms (σ.step (.add pk x)).state x) k := by
  obtain ⟨raw, hsched, -, hfrom⟩ := h st hst
  obtain ⟨cur, m, hcur, hcurFrom, hwritten, hm, hpost, -⟩ := h.call hop
  obtain ⟨y, hy⟩ := Option.isSome_iff_exists.mp hsup
  have hrawl : raw l = .atom y := (hsched.suppliedAt_iff hl).mp hy
  obtain ⟨hused, -, hhome⟩ := hfrom.occurs hl (x := y) (by rw [hrawl]; rfl)
  have hyx : y ≠ x := fun he => hop.2 (he ▸ hused)
  obtain ⟨es, -, hak, hocc⟩ := hsched.occurs_secret (x := y)
  rw [hak] at hk
  rw [← Option.some.inj hk]
  intro hder
  obtain ⟨t, ht, hyt⟩ := hder.occurs
    (occurs_applicationKey.mpr (hocc.mpr ⟨l, hl, by rw [hrawl]; rfl⟩))
  rcases ht with ht | rfl
  · obtain ⟨l', hl', hyl'⟩ := hpost.occurs_stateTerms ht hyt
    by_cases hlm : l' = m
    · rw [hlm, Function.update_self] at hyl'
      exact hyx hyl'
    · -- In the old tree a secret sits in its own leaf or not at all.
      rw [Function.update_of_ne hlm] at hyl'
      obtain ⟨-, hcurl, hhome'⟩ := hcurFrom.occurs hl' hyl'
      obtain rfl : l = l' := hhome.symm.trans hhome'
      rcases hover with he | hne
      · exact hlm (he.trans (Option.some.inj hwritten))
      · exact hne (((hcur.suppliedAt_iff hl).mpr hcurl).trans hy.symm)
  · exact hyx hyt

/-- A new member can compute no earlier application key from what it is
handed, exactly if for every earlier epoch a secret that was in its tree has
been overwritten. -/
theorem new_member_shut_out_iff (h₀ : GroupRun.create groupId ms = .ok σ₀)
    (hnd : (ms.map (·.2)).Nodup) (hrun : Along GroupRun.step FreshCall σ₀ ops)
    (hadd : FreshCall (runFrom GroupRun.step σ₀ ops) (.add pk x)) :
    (∀ st ∈ (runFrom GroupRun.step σ₀ ops).states, ∀ k, st.applicationKey = some k →
      ¬ Term.Derivable
        (joinerTerms ((runFrom GroupRun.step σ₀ ops).step (.add pk x)).state x) k) ↔
      Overwritten (runFrom GroupRun.step σ₀ ops) := by
  obtain ⟨home, hbooks⟩ := run_books h₀ hnd hrun
  constructor
  · intro hshut st hst
    by_contra hkept
    obtain ⟨raw, hsched, -, -⟩ := hbooks st hst
    obtain ⟨es, -, -, hak⟩ := hsched.secret
    exact hshut st hst _ hak (hbooks.open_epoch hadd hst hkept hak)
  · intro hover st hst k hk
    obtain ⟨l, hl, hsup, hor⟩ := hover st hst
    exact hbooks.closed_epoch hadd hst hl hsup hor hk

/-- A group of four in which member 4 leaves and another takes the leaf: both
earlier epochs had a secret there that is gone. -/
theorem new_member_shut_out_four :
    Overwritten (runFrom GroupRun.step (sampleGroup 4) [.remove [4] (.secret 5)]) ∧
      ∀ st ∈ (runFrom GroupRun.step (sampleGroup 4) [.remove [4] (.secret 5)]).states,
        ∀ k, st.applicationKey = some k → ¬ Term.Derivable (joinerTerms
          ((runFrom GroupRun.step (sampleGroup 4) [.remove [4] (.secret 5)]).step
            (.add [5] (.secret 6))).state (.secret 6)) k := by
  have hover : Overwritten (runFrom GroupRun.step (sampleGroup 4)
      [.remove [4] (.secret 5)]) := by decide +kernel
  exact ⟨hover, (new_member_shut_out_iff (sampleGroup_created 4 (by decide)) (by decide)
    (by decide +kernel) (by decide +kernel)).mpr hover⟩

/-- A group of three takes in a fourth member, and the key of the epoch before
can be computed from the state handed to it. -/
theorem new_member_reads_first_epoch :
    ∃ st ∈ (sampleGroup 3).states, ∃ k, st.applicationKey = some k ∧ Term.Derivable
      (joinerTerms ((sampleGroup 3).step (.add [4] (.secret 4))).state (.secret 4)) k := by
  have hbooks : GroupBooks [7] _ (sampleGroup 3) :=
    create_books (sampleGroup_created 3 (by decide)) (by decide)
  have hst : (sampleGroup 3).state ∈ (sampleGroup 3).states := List.mem_cons_self
  obtain ⟨raw, hsched, -, -⟩ := hbooks _ hst
  obtain ⟨es, -, -, hak⟩ := hsched.secret
  exact ⟨_, hst, _, hak, hbooks.open_epoch (by decide +kernel) hst (by decide +kernel) hak⟩

end Joining

end GhostChat.Proofs
