import GhostChat.Proofs.Leaves

/-!
# Membership changes that raise

`add_member` and `remove_member` change the map first and may raise after
that: when there is no leaf with that number, when the tree has no root, when
the epoch no longer fits eight bytes. Only the first check of each, whether
the member is there, raises with nothing changed.

So a call is all or nothing exactly if that check refuses it or nothing after
it can raise. Whether the tree has a root in the end is seen before the call:
it has one already, or the path from the leaf is all it lacks. A tree without
a root comes from an `add_member` that built a new tree and then raised.
-/

namespace GhostChat.Proofs

open GhostChat.Lib GhostChat.Lib.Effect GhostChat.Ref

variable {K : Type} {a : KeyAlg K} {st : GroupState K}

/-! ## Writing one leaf -/

/-- The leaf beside a leaf. -/
def besideLeaf (t : GroupTree K) (l : Nat) : Option K :=
  (t.nodeSecrets[t.leafNodeIndex (if l % 2 = 0 then l + 1 else l - 1)]?).join

/-- The inner node on the side where the leaf is not. -/
def otherSide (t : GroupTree K) (l : Nat) : Option K :=
  (t.nodeSecrets[if l < 2 then 2 else 1]?).join

/-- The tree has a root, or lacks nothing for it but the path from this
leaf. -/
def RootedWith (t : GroupTree K) (l : Nat) : Prop :=
  t.rootSecret.isSome ∨ ((besideLeaf t l).isSome ∧ (otherSide t l).isSome)

instance (t : GroupTree K) (l : Nat) : Decidable (RootedWith t l) :=
  inferInstanceAs (Decidable (_ ∨ _))

theorem setLeaf_raises {t : GroupTree K} (ht : Shaped t) {l : Nat} (hl : 4 ≤ l) (s : K) :
    ∃ e, GroupTree.setLeaf a l s t = .error e t := by
  refine ⟨.indexError "list assignment index out of range", ?_⟩
  have hout : ¬ t.leafNodeIndex l < t.nodeSecrets.length := by
    rw [GroupTree.leafNodeIndex, ht.offset, ht.nodes]
    omega
  rw [GroupTree.setLeaf, bind_apply, get_apply]
  simp only [ite_run, if_neg hout]
  rfl

theorem Shaped.node {t : GroupTree K} (ht : Shaped t) {i : Nat} (hi : i < 7) :
    ∃ v, t.nodeSecrets[i]? = some v := ⟨_, List.getElem?_eq_getElem (by rw [ht.nodes]; exact hi)⟩

/-- One round of `_recompute_path`, from a node that is set: it ends if the
node beside it is not, or goes on from the parent. -/
theorem recomputePath_round {t : GroupTree K} {i j parent : Nat} {x : K} {y : Option K}
    (hpair : (i = 2 * parent + 1 ∧ j = 2 * parent + 2) ∨
      (i = 2 * parent + 2 ∧ j = 2 * parent + 1))
    (hi : t.nodeSecrets[i]? = some (some x)) (hj : t.nodeSecrets[j]? = some y) (fuel : Nat) :
    (y = none ∧ GroupTree.recomputePath a (fuel + 1) i t = .ok () t) ∨
      (y.isSome ∧ ∃ k, GroupTree.recomputePath a (fuel + 1) i t
        = GroupTree.recomputePath a fuel parent
          { t with nodeSecrets := t.nodeSecrets.set parent (some k) }) := by
  have hparent : GroupTree.parentIndex i = some parent := by
    rw [GroupTree.parentIndex, if_neg (by omega)]
    congr 1
    omega
  rw [GroupTree.recomputePath, hparent]
  simp only [bind_apply, get_apply]
  rcases hpair with ⟨rfl, rfl⟩ | ⟨rfl, rfl⟩
  · rw [hi, hj]
    cases y with
    | none => exact Or.inl ⟨rfl, rfl⟩
    | some y => exact Or.inr ⟨rfl, _, rfl⟩
  · rw [hi, hj]
    cases y with
    | none => exact Or.inl ⟨rfl, rfl⟩
    | some y => exact Or.inr ⟨rfl, _, rfl⟩

/-- The walk from a leaf `i` with `j` beside it, under `parent` with `other` on
the other side. -/
theorem recomputePath_walk {t : GroupTree K} (ht : Shaped t) {i j parent other : Nat} {x : K}
    (hpair : (i = 2 * parent + 1 ∧ j = 2 * parent + 2) ∨
      (i = 2 * parent + 2 ∧ j = 2 * parent + 1))
    (hsides : (parent = 1 ∧ other = 2) ∨ (parent = 2 ∧ other = 1))
    (hi : t.nodeSecrets[i]? = some (some x)) (fuel : Nat) :
    ∃ t', GroupTree.recomputePath a (fuel + 3) i t = .ok () t' ∧
      (t'.rootSecret.isSome ↔ t.rootSecret.isSome ∨
        ((t.nodeSecrets[j]?).join.isSome ∧ (t.nodeSecrets[other]?).join.isSome)) := by
  obtain ⟨y, hj⟩ := ht.node (i := j) (by omega)
  obtain ⟨z, hother⟩ := ht.node (i := other) (by omega)
  rw [hj, hother]
  rcases recomputePath_round (a := a) hpair hi hj (fuel + 2) with
    ⟨rfl, hstop⟩ | ⟨hy, k, hturn⟩
  · exact ⟨t, hstop, by simp⟩
  · have hparent : (t.nodeSecrets.set parent (some k))[parent]? = some (some k) :=
      List.getElem?_set_self (by rw [ht.nodes]; omega)
    have hkept : (t.nodeSecrets.set parent (some k))[other]? = some z := by
      rw [List.getElem?_set_ne (by omega), hother]
    have htop : (parent = 2 * 0 + 1 ∧ other = 2 * 0 + 2) ∨
        (parent = 2 * 0 + 2 ∧ other = 2 * 0 + 1) := hsides
    rw [hturn]
    rcases recomputePath_round (a := a) (t := ⟨t.nodeSecrets.set parent (some k), t.leafOffset⟩)
      htop hparent hkept (fuel + 1) with ⟨rfl, hstop⟩ | ⟨hz, k', hturn'⟩
    · refine ⟨_, hstop, ?_⟩
      rw [GroupTree.rootSecret, List.getElem?_set_ne (by omega)]
      simp [GroupTree.rootSecret]
    · refine ⟨_, hturn', ?_⟩
      have hroot : ((t.nodeSecrets.set parent (some k)).set 0 (some k'))[0]?
          = some (some k') := List.getElem?_set_self (by rw [List.length_set, ht.nodes]; omega)
      rw [GroupTree.rootSecret, hroot]
      exact iff_of_true rfl (Or.inr ⟨hy, hz⟩)

/-- The walk to the root returns from every leaf there is, with a root in the
end or without. -/
theorem setLeaf_returns {t : GroupTree K} (ht : Shaped t) {l : Nat} (hl : l < 4) (s : K) :
    ∃ t', GroupTree.setLeaf a l s t = .ok () t' ∧ (t'.rootSecret.isSome ↔ RootedWith t l) := by
  have hindex : ∀ l', t.leafNodeIndex l' = 3 + l' := fun l' => by
    rw [GroupTree.leafNodeIndex, ht.offset]
  have hin : 3 + l < t.nodeSecrets.length := by
    rw [ht.nodes]
    omega
  rw [GroupTree.setLeaf, bind_apply, get_apply]
  simp only [hindex, if_pos hin, RootedWith, besideLeaf, otherSide, GroupTree.rootSecret]
  -- The node beside the leaf, its parent, and the node on the other side.
  obtain ⟨j, parent, other, hj, hother, hpair, hsides⟩ : ∃ j parent other : Nat,
      j = 3 + (if l % 2 = 0 then l + 1 else l - 1) ∧ other = (if l < 2 then 2 else 1) ∧
      ((3 + l = 2 * parent + 1 ∧ j = 2 * parent + 2) ∨
        (3 + l = 2 * parent + 2 ∧ j = 2 * parent + 1)) ∧
      ((parent = 1 ∧ other = 2) ∨ (parent = 2 ∧ other = 1)) := by
    refine ⟨_, 1 + l / 2, _, rfl, rfl, ?_, ?_⟩
    · split <;> omega
    · split <;> omega
  rw [← hj, ← hother]
  have hwalk := recomputePath_walk (a := a)
    (ht.setNode (3 + l) (some (deriveLeafNodeSecret a s l))) hpair hsides
    (List.getElem?_set_self hin) l
  simp only [GroupTree.rootSecret] at hwalk
  rw [List.getElem?_set_ne (by omega), List.getElem?_set_ne (by omega),
    List.getElem?_set_ne (by omega), Nat.add_comm l 3] at hwalk
  exact hwalk

/-! ## Which calls return -/

theorem toBytesBig_cases (n : Nat) :
    (n < 2 ^ 64 ∧ ∃ b, toBytesBig n 8 = .ok b) ∨
      (¬ n < 2 ^ 64 ∧ ∃ e, toBytesBig n 8 = .error e) := by
  have hpow : 256 ^ 8 = 2 ^ 64 := by decide
  rw [toBytesBig, hpow]
  by_cases hn : n < 2 ^ 64
  · exact Or.inl ⟨hn, _, if_pos hn⟩
  · exact Or.inr ⟨hn, _, if_neg hn⟩

/-- The secrets are derived where there is a root to derive them from and the
epoch can be encoded. -/
theorem rederive_returns_iff :
    (∃ st', GroupState.rederiveGroupSecret a st = .ok () st') ↔
      st.tree.rootSecret.isSome ∧ st.epoch < 2 ^ 64 := by
  simp only [GroupState.rederiveGroupSecret, bind_apply, get_apply]
  cases hroot : st.tree.rootSecret with
  | none => exact iff_of_false (by rintro ⟨_, ⟨⟩⟩) (by rintro ⟨⟨⟩, _⟩)
  | some root =>
      rcases toBytesBig_cases st.epoch with ⟨hn, b, hb⟩ | ⟨hn, e, he⟩
      · refine iff_of_true ?_ ⟨rfl, hn⟩
        simp only [deriveEpochSecret, deriveGroupHash, hb]
        exact ⟨_, rfl⟩
      · refine iff_of_false ?_ (fun h => hn h.2)
        simp only [deriveEpochSecret, he]
        rintro ⟨_, ⟨⟩⟩

/-- The end of both calls. -/
theorem rekey_returns_iff (st : GroupState K) (hshape : Shaped st.tree) (l : Nat) (s : K) :
    (∃ st', (do
      onTree (GroupTree.setLeaf a l s)
      modify fun st : GroupState K => { st with epoch := st.epoch + 1 }
      GroupState.rederiveGroupSecret a) st = .ok () st') ↔
      l < leafCount st.tree ∧ RootedWith st.tree l ∧ st.epoch + 1 < 2 ^ 64 := by
  rw [bind_apply, onTree, zoom, hshape.leafCount_eq]
  by_cases hl : l < 4
  · obtain ⟨t', hset, hroot⟩ := setLeaf_returns (a := a) hshape hl s
    rw [hset, ← hroot]
    exact rederive_returns_iff.trans (and_iff_right hl).symm
  · obtain ⟨e, hset⟩ := setLeaf_raises (a := a) hshape (not_lt.mp hl) s
    rw [hset]
    exact iff_of_false (by rintro ⟨_, ⟨⟩⟩) fun h => hl h.1

/-- The first check of each call. -/
def TurnedAway (st : GroupState K) : GroupOp K → Prop
  | .add pk _ => Odict.has st.members pk = true
  | .remove pk _ => Odict.get? st.members pk = none

/-- The leaf the call writes is there, the tree has a root with it, and the
next epoch fits eight bytes. -/
def Completes (st : GroupState K) (op : GroupOp K) : Prop :=
  ∃ l, writtenLeaf st op = some l ∧ l < leafCount st.tree ∧ RootedWith st.tree l ∧
    st.epoch + 1 < 2 ^ 64

theorem addMember_returns_iff (hshape : Shaped st.tree) {pk : Bytes}
    (hnew : Odict.has st.members pk = false) (s : K) :
    (∃ st', GroupState.addMember a pk s st = .ok () st') ↔ Completes st (.add pk s) := by
  have hcompletes : Completes st (.add pk s) ↔ st.members.length < leafCount st.tree ∧
      RootedWith st.tree st.members.length ∧ st.epoch + 1 < 2 ^ 64 := by
    constructor
    · rintro ⟨l, hl, h⟩
      cases hl
      exact h
    · exact fun h => ⟨_, rfl, h⟩
  rw [hcompletes]
  simp only [GroupState.addMember, bind_apply, get_apply, hnew, Bool.false_eq_true, if_false,
    modify_apply, Odict.set_of_not_has hnew]
  by_cases hfull : st.members.length ≥ (st.tree.nodeSecrets.length + 1) / 2
  · -- However the new tree comes out, it has no such leaf.
    refine iff_of_false ?_ (fun h => absurd h.1 (not_lt.mpr hfull))
    rw [if_pos hfull]
    rintro ⟨st', h⟩
    obtain ⟨u, st₁, hrebuild, h⟩ := bind_ok h
    have hmapped := rebuildTree_mapped (a := a) st.members.length
      { st with members := st.members ++ [(pk, ⟨pk, st.members.length⟩)] } ⟨rfl, hshape⟩
    rw [hrebuild] at hmapped
    obtain ⟨hlt, -⟩ := (rekey_returns_iff _ hmapped.2 st.members.length s).mp ⟨st', h⟩
    rw [hmapped.2.leafCount_eq, ← hshape.leafCount_eq] at hlt
    exact absurd hlt (not_lt.mpr hfull)
  · rw [if_neg hfull]
    exact rekey_returns_iff
      { st with members := st.members ++ [(pk, ⟨pk, st.members.length⟩)] } hshape
      st.members.length s

theorem removeMember_returns_iff (hshape : Shaped st.tree) {pk : Bytes} {m : GroupMember}
    (hget : Odict.get? st.members pk = some m) (s : K) :
    (∃ st', GroupState.removeMember a pk s st = .ok () st') ↔ Completes st (.remove pk s) := by
  have hcompletes : Completes st (.remove pk s) ↔ m.leafIndex < leafCount st.tree ∧
      RootedWith st.tree m.leafIndex ∧ st.epoch + 1 < 2 ^ 64 := by
    constructor
    · rintro ⟨l, hl, h⟩
      rw [writtenLeaf, hget] at hl
      cases hl
      exact h
    · exact fun h => ⟨_, by rw [writtenLeaf, hget]; rfl, h⟩
  rw [hcompletes]
  simp only [GroupState.removeMember, bind_apply, get_apply, hget]
  exact rekey_returns_iff { st with members := Odict.erase st.members pk } hshape m.leafIndex s

/-! ## All or nothing -/

/-- A call that raises leaves the group as it was. -/
def Atomic (a : KeyAlg K) (st : GroupState K) (op : GroupOp K) : Prop :=
  ∀ e st', st.call a op = .error e st' → st' = st

theorem turnedAway_raises {op : GroupOp K} (h : TurnedAway st op) :
    ∃ e, st.call a op = .error e st := by
  cases op with
  | add pk s =>
      refine ⟨.valueError "Member already in group", ?_⟩
      rw [GroupState.call, GroupState.addMember, bind_apply, get_apply]
      simp only [show Odict.has st.members pk = true from h, if_true]
      rfl
  | remove pk s =>
      refine ⟨.valueError "Member not in group", ?_⟩
      rw [GroupState.call, GroupState.removeMember, bind_apply, get_apply]
      simp only [show Odict.get? st.members pk = none from h]
      rfl

/-- Past the first check a call returns or not as the group stands, and has
changed the map either way. -/
theorem call_past (hshape : Shaped st.tree) {op : GroupOp K} (h : ¬ TurnedAway st op) :
    ((∃ st', st.call a op = .ok () st') ↔ Completes st op) ∧
      (after (st.call a op)).members ≠ st.members := by
  cases op with
  | add pk s =>
      have hnew : Odict.has st.members pk = false := Bool.eq_false_iff.mpr h
      refine ⟨addMember_returns_iff hshape hnew s, ?_⟩
      rw [GroupState.call, (addMember_mapped hshape hnew s).1]
      exact fun heq => by simpa using congrArg List.length heq
  | remove pk s =>
      obtain ⟨m, hget⟩ := Option.ne_none_iff_exists'.mp h
      refine ⟨removeMember_returns_iff hshape hget s, ?_⟩
      rw [GroupState.call, (removeMember_mapped hshape pk s).1]
      intro heq
      have hgone := Odict.get?_erase_self st.members pk
      rw [heq, hget] at hgone
      cases hgone

theorem atomic_iff (hshape : Shaped st.tree) (op : GroupOp K) :
    Atomic a st op ↔ TurnedAway st op ∨ Completes st op := by
  by_cases haway : TurnedAway st op
  · refine iff_of_true (fun e st' h => ?_) (Or.inl haway)
    obtain ⟨e', he'⟩ := turnedAway_raises (a := a) haway
    rw [he'] at h
    cases h
    rfl
  · obtain ⟨hreturns, hchanged⟩ := call_past (a := a) hshape haway
    rw [or_iff_right haway, ← hreturns]
    constructor
    · intro hatomic
      cases hcall : st.call a op with
      | ok u st' => exact ⟨st', rfl⟩
      | error e st' =>
          rw [hcall] at hchanged
          exact absurd (congrArg GroupState.members (hatomic e st' hcall)) hchanged
    · rintro ⟨st', hok⟩ e st'' h
      rw [hok] at h
      cases h

/-- In every state that a new group comes to by calls that return or raise:
the next call is all or nothing exactly if its first check refuses it or
nothing after it can raise. -/
theorem membership_atomic_iff {groupId : Bytes} {ms : List (Bytes × K)}
    (h₀ : GroupState.create a groupId ms = .ok st) (ops : List (GroupOp K)) (op : GroupOp K) :
    Atomic a (runFrom (callStep a) st ops) op ↔
      TurnedAway (runFrom (callStep a) st ops) op ∨ Completes (runFrom (callStep a) st ops) op := by
  have hshape : Shaped (runFrom (callStep a) st ops).tree :=
    runFrom_invariant (I := fun st : GroupState K => Shaped st.tree)
      (fun _ op h => callStep_shaped op h) (create_sound h₀).1 ops
  exact atomic_iff hshape op

/-- A fourth member is added to three and leaves again. -/
theorem membership_atomic_fourth :
    GroupState.create sampleCrypto.toKeyAlg [7] [([1], mix [1]), ([2], mix [2]), ([3], mix [3])]
        = .ok sampleTrio ∧
      Atomic sampleCrypto.toKeyAlg (runFrom (callStep sampleCrypto.toKeyAlg) sampleTrio
        [.add [4] (mix [4])]) (.remove [4] (mix [5])) :=
  ⟨sampleTrio_created, (membership_atomic_iff sampleTrio_created _ _).mpr
    (Or.inr ⟨3, by decide +kernel, by decide +kernel, by decide +kernel, by decide +kernel⟩)⟩

/-- A fifth member is added to four: the call raises, and the fifth is in the
map. -/
theorem fifth_member_stays :
    GroupState.create sampleCrypto.toKeyAlg [7] [([1], mix [1]), ([2], mix [2]), ([3], mix [3])]
        = .ok sampleTrio ∧
      ¬ Atomic sampleCrypto.toKeyAlg (runFrom (callStep sampleCrypto.toKeyAlg) sampleTrio
        [.add [4] (mix [4])]) (.add [5] (mix [5])) := by
  refine ⟨sampleTrio_created, fun h => ?_⟩
  cases hcall : (runFrom (callStep sampleCrypto.toKeyAlg) sampleTrio
      [.add [4] (mix [4])]).call sampleCrypto.toKeyAlg (.add [5] (mix [5])) with
  | ok u st' =>
      have hraises : value? ((runFrom (callStep sampleCrypto.toKeyAlg) sampleTrio
        [.add [4] (mix [4])]).call sampleCrypto.toKeyAlg (.add [5] (mix [5]))) = none := by
        decide +kernel
      rw [hcall] at hraises
      cases hraises
  | error e st' =>
      have hfive : (after ((runFrom (callStep sampleCrypto.toKeyAlg) sampleTrio
        [.add [4] (mix [4])]).call sampleCrypto.toKeyAlg (.add [5] (mix [5])))).members.length
          = 5 := by decide +kernel
      rw [hcall, after_error, h e st' hcall] at hfive
      exact absurd hfive (by decide +kernel)

end GhostChat.Proofs
