import GhostChat.Proofs.Tree
import Mathlib.Logic.Function.Basic
import Mathlib.Tactic.IntervalCases

/-!
# What a group state is a function of

Four leaf secrets determine everything a group derives. `treeOf` is the tree
they give, the recomputed tree written out, and a state is `Scheduled` by them
when its tree, its epoch secret, its application key and its hash are the ones
derived from them. Creating a group fills the leaves from left to right,
members first and padding after; every later call that returns replaces one
leaf secret and moves one epoch on.

No returning call ever takes the branch that rebuilds the tree: it needs a
fifth member, and a tree for five members is refused.
-/

namespace GhostChat.Proofs

open GhostChat.Lib GhostChat.Lib.Effect GhostChat.Ref

variable {K : Type} {a : KeyAlg K} {raw : Nat → K} {st st' : GroupState K}

/-! ## The tree over four leaf secrets -/

def leafNode (a : KeyAlg K) (raw : Nat → K) (l : Nat) : K := deriveLeafNodeSecret a (raw l) l

/-- The inner nodes 1 and 2, and the root. -/
def leftNode (a : KeyAlg K) (raw : Nat → K) : K :=
  deriveInternalNodeSecret a (leafNode a raw 0) (leafNode a raw 1) 1

def rightNode (a : KeyAlg K) (raw : Nat → K) : K :=
  deriveInternalNodeSecret a (leafNode a raw 2) (leafNode a raw 3) 2

def rootOf (a : KeyAlg K) (raw : Nat → K) : K :=
  deriveInternalNodeSecret a (leftNode a raw) (rightNode a raw) 0

def treeOf (a : KeyAlg K) (raw : Nat → K) : GroupTree K where
  nodeSecrets := [some (rootOf a raw), some (leftNode a raw), some (rightNode a raw),
    some (leafNode a raw 0), some (leafNode a raw 1), some (leafNode a raw 2),
    some (leafNode a raw 3)]
  leafOffset := 3

/-- The tree with its first `k` leaves set, in order. -/
def partialTree (a : KeyAlg K) (raw : Nat → K) : Nat → GroupTree K
  | 0 => ⟨List.replicate 7 none, 3⟩
  | 1 => ⟨[none, none, none, some (leafNode a raw 0), none, none, none], 3⟩
  | 2 => ⟨[none, some (leftNode a raw), none, some (leafNode a raw 0),
      some (leafNode a raw 1), none, none], 3⟩
  | 3 => ⟨[none, some (leftNode a raw), none, some (leafNode a raw 0),
      some (leafNode a raw 1), some (leafNode a raw 2), none], 3⟩
  | _ => treeOf a raw

theorem treeOf_eq (raw : Nat → K) : treeOf a raw = fullTree a 2 fun l => some (raw l) := rfl

theorem setLeaf_treeOf {l : Nat} (hl : l < 4) (s : K) :
    GroupTree.setLeaf a l s (treeOf a raw) = .ok () (treeOf a (Function.update raw l s)) := by
  have hupdate : (fun l' => some (Function.update raw l s l'))
      = Function.update (fun l' => some (raw l')) l (some s) := Function.comp_update some raw l s
  rw [treeOf_eq, treeOf_eq, hupdate]
  exact (setLeaf_fullTree hl _ s).1

/-- The first `k` of the leaf secrets. -/
def firstSecrets (raw : Nat → K) (k l : Nat) : Option K := if l < k then some (raw l) else none

theorem firstSecrets_succ (k : Nat) :
    firstSecrets raw (k + 1) = Function.update (firstSecrets raw k) k (some (raw k)) := by
  funext l
  by_cases hl : l = k
  · rw [hl, Function.update_self, firstSecrets, if_pos (Nat.lt_succ_self k)]
  · rw [Function.update_of_ne hl, firstSecrets, firstSecrets]
    simp only [show l < k + 1 ↔ l < k by omega]

theorem partialTree_eq {k : Nat} (hk : k ≤ 4) :
    partialTree a raw k = fullTree a 2 (firstSecrets raw k) := by
  interval_cases k <;> rfl

theorem setLeaf_partialTree {k : Nat} (hk : k < 4) :
    GroupTree.setLeaf a k (raw k) (partialTree a raw k)
      = .ok () (partialTree a raw (k + 1)) := by
  rw [partialTree_eq hk.le, partialTree_eq hk, firstSecrets_succ]
  exact (setLeaf_fullTree hk _ _).1

/-! ## Scheduled states -/

/-- The state is the one its leaf secrets, its epoch and its members
determine. -/
structure Scheduled (a : KeyAlg K) (raw : Nat → K) (st : GroupState K) : Prop where
  tree : st.tree = treeOf a raw
  secret : ∃ es, deriveEpochSecret a (rootOf a raw) st.epoch st.groupId = .ok es ∧
    st.groupSecret = some es ∧ st.applicationKey = some (deriveApplicationKey a es)
  hash : ∃ h, deriveGroupHash a st.groupId st.epoch (Odict.keys st.members) (rootOf a raw)
    = .ok h ∧ st.groupHash = some h
  size : st.members.length ≤ 4
  leaves : ∀ e ∈ st.members, e.2.leafIndex < 4

/-- Where a rederivation returns, the state is scheduled, and nothing but the
derived fields has changed. -/
theorem rederive_scheduled (htree : st.tree = treeOf a raw) (hsize : st.members.length ≤ 4)
    (hleaves : ∀ e ∈ st.members, e.2.leafIndex < 4) {u : Unit}
    (h : GroupState.rederiveGroupSecret a st = .ok u st') :
    Scheduled a raw st' ∧ st'.groupId = st.groupId ∧ st'.epoch = st.epoch ∧
      st'.members = st.members := by
  have hroot : st.tree.rootSecret = some (rootOf a raw) := by rw [htree]; rfl
  simp only [GroupState.rederiveGroupSecret, bind_apply, get_apply, hroot] at h
  cases hes : deriveEpochSecret a (rootOf a raw) st.epoch st.groupId with
  | error e => rw [hes] at h; cases h
  | ok es =>
      cases hh : deriveGroupHash a st.groupId st.epoch (Odict.keys st.members)
          (rootOf a raw) with
      | error e => simp [hes, hh] at h
      | ok gh =>
          simp only [hes, hh, lift_ok, modify_apply] at h
          injection h with _ h
          subst h
          exact ⟨⟨htree, ⟨es, hes, rfl, rfl⟩, ⟨gh, hh, rfl⟩, hsize, hleaves⟩, rfl, rfl, rfl⟩

/-! ## Creating a group -/

/-- The leaf secrets of a new group: the members' in order, then padding. -/
def initialLeaves (a : KeyAlg K) (groupId : Bytes) (ms : List (Bytes × K)) (l : Nat) : K :=
  match ms[l]? with
  | some m => m.2
  | none => paddingSecret a groupId l

theorem placeMembers_ok : ∀ (ms : List (Bytes × K)) (k : Nat)
    (members members' : Odict Bytes GroupMember) (t : GroupTree K),
    (∀ i m, ms[i]? = some m → raw (k + i) = m.2) → k + ms.length ≤ 4 →
    (∀ e ∈ members, e.2.leafIndex < k) →
    GroupState.placeMembers a (ms.zipIdx k) (partialTree a raw k, members)
      = .ok (t, members') →
    t = partialTree a raw (k + ms.length) ∧ members'.length = members.length + ms.length ∧
      ∀ e ∈ members', e.2.leafIndex < k + ms.length := by
  intro ms
  induction ms with
  | nil =>
      intro k members members' t _ _ hleaves h
      injection h with h
      injection h with ht hm
      subst ht hm
      exact ⟨rfl, rfl, hleaves⟩
  | cons m ms ih =>
      intro k members members' t hraw hk hleaves h
      obtain ⟨pk, secret⟩ := m
      rw [List.zipIdx_cons, GroupState.placeMembers] at h
      split at h
      · cases h
      · next hnew =>
          have hsecret : raw k = secret := hraw 0 _ rfl
          rw [List.length_cons] at hk
          have hset : onFreshTree (partialTree a raw k) (GroupTree.setLeaf a k secret)
              = .ok (partialTree a raw (k + 1)) := by
            rw [onFreshTree, ← hsecret, setLeaf_partialTree (by omega)]
          rw [hset] at h
          have hset' := Odict.set_of_not_has (Bool.eq_false_iff.mpr hnew)
            (GroupMember.mk pk k)
          obtain ⟨ht, hlen, hall⟩ := ih (k + 1) _ members' t
            (fun i m hi => by
              rw [Nat.add_right_comm, Nat.add_assoc]
              exact hraw (i + 1) m hi)
            (by omega)
            (by
              rw [hset']
              intro e he
              rcases List.mem_append.mp he with he | he
              · exact Nat.lt_succ_of_lt (hleaves e he)
              · rw [List.mem_singleton.mp he]
                exact Nat.lt_succ_self k) h
          rw [hset', List.length_append, List.length_singleton] at hlen
          rw [List.length_cons]
          refine ⟨?_, by omega, fun e he => ?_⟩
          · rw [ht, Nat.add_right_comm, Nat.add_assoc]
          · have := hall e he
            omega

theorem placePadding_ok {groupId : Bytes} (n k : Nat)
    (hraw : ∀ l, k ≤ l → raw l = paddingSecret a groupId l) (hk : k + n ≤ 4) :
    GroupState.placePadding a groupId (List.range' k n) (partialTree a raw k)
      = .ok (partialTree a raw (k + n)) := by
  induction n generalizing k with
  | zero => rfl
  | succ n ih =>
      have hset : onFreshTree (partialTree a raw k)
          (GroupTree.setLeaf a k (paddingSecret a groupId k))
            = .ok (partialTree a raw (k + 1)) := by
        rw [onFreshTree, ← hraw k (Nat.le_refl k), setLeaf_partialTree (by omega)]
      rw [List.range'_succ, GroupState.placePadding, hset]
      have := ih (k + 1) (fun l hl => hraw l (by omega)) (by omega)
      rw [Nat.add_right_comm, Nat.add_assoc] at this
      exact this

theorem forMemberCount_ok {n : Nat} {t : GroupTree K}
    (h : GroupTree.forMemberCount n = .ok t) : t = partialTree a raw 0 ∧ n ≤ 4 := by
  unfold GroupTree.forMemberCount at h
  split at h
  · cases h
  · split at h
    · cases h
    · injection h with h
      exact ⟨h.symm, by omega⟩

theorem create_scheduled {groupId : Bytes} {ms : List (Bytes × K)}
    (h : GroupState.create a groupId ms = .ok st) :
    Scheduled a (initialLeaves a groupId ms) st ∧ st.groupId = groupId ∧
      st.epoch = initialEpoch ∧ ms.length ≤ 4 := by
  rw [GroupState.create] at h
  split at h
  · cases h
  split at h
  · cases h
  obtain ⟨t₀, ht₀, h⟩ := except_bind_ok h
  obtain ⟨rfl, hle⟩ : t₀ = partialTree a (initialLeaves a groupId ms) 0 ∧ ms.length ≤ 4 :=
    forMemberCount_ok ht₀
  obtain ⟨⟨t₁, members⟩, hplaced, h⟩ := except_bind_ok h
  obtain ⟨rfl, hsize, hleaves⟩ := placeMembers_ok ms 0 [] members t₁
    (fun i m hi => by rw [Nat.zero_add, initialLeaves, hi]) (by omega) nofun hplaced
  obtain ⟨t₂, hpad, h⟩ := except_bind_ok h
  -- However many leaves the members took, the tree has seven nodes.
  have hnodes : (partialTree a (initialLeaves a groupId ms) ms.length).nodeSecrets.length
      = 7 := by
    match ms.length, hle with
    | 0, _ | 1, _ | 2, _ | 3, _ | 4, _ => rfl
  rw [Nat.zero_add, hnodes, placePadding_ok _ _ (fun l hl => by
    rw [initialLeaves, List.getElem?_eq_none hl]) (by omega)] at hpad
  injection hpad with hpad
  rw [Nat.add_sub_cancel' hle] at hpad
  subst hpad
  obtain ⟨es, hes, h⟩ := except_bind_ok (f := fun es => _) h
  obtain ⟨gh, hh, h⟩ := except_bind_ok h
  injection h with h
  subst h
  have hfour : members.length ≤ 4 := by
    rw [List.length_nil] at hsize
    omega
  exact ⟨⟨rfl, ⟨es, hes, rfl, rfl⟩, ⟨gh, hh, rfl⟩, hfour, fun e he => by
    have := hleaves e he; omega⟩, rfl, rfl, hle⟩

/-! ## Changing it -/

theorem onTree_treeOf (st : GroupState K) {l : Nat} (hl : l < 4) (s : K)
    (htree : st.tree = treeOf a raw) :
    onTree (GroupTree.setLeaf a l s) st
      = .ok () { st with tree := treeOf a (Function.update raw l s) } := by
  rw [onTree, zoom, htree, setLeaf_treeOf hl]

/-- The fifth member is refused. -/
theorem rebuildTree_full (hfull : 4 ≤ st.members.length)
    (hleaves : ∀ e ∈ st.members, e.2.leafIndex < 4) (pk : Bytes) :
    ∃ e, GroupState.rebuildTree a 4
      { st with members := st.members ++ [(pk, ⟨pk, 4⟩)] } = .error e
        { st with members := st.members ++ [(pk, ⟨pk, 4⟩)] } := by
  have hold : (((st.members ++ [(pk, (⟨pk, 4⟩ : GroupMember))]).map (·.2)).filter
      (·.leafIndex < 4)).length = st.members.length := by
    rw [List.map_append, List.filter_append, List.filter_eq_self.mpr, List.length_append,
      List.length_map]
    · simp
    · intro m hm
      obtain ⟨e, he, rfl⟩ := List.mem_map.mp hm
      exact decide_eq_true (hleaves e he)
  refine ⟨.valueError "Prototype group size limit is 4 members", ?_⟩
  simp only [GroupState.rebuildTree, bind_apply, get_apply, hold, GroupTree.forMemberCount]
  rw [if_neg (by omega), if_pos (by omega)]
  rfl

theorem addMember_ok {pk : Bytes} {s : K} {u : Unit} (h : Scheduled a raw st)
    (hok : GroupState.addMember a pk s st = .ok u st') :
    st.members.length < 4 ∧ Scheduled a (Function.update raw st.members.length s) st' ∧
      st'.groupId = st.groupId ∧ st'.epoch = st.epoch + 1 := by
  have hnodes : (st.tree.nodeSecrets.length + 1) / 2 = 4 := by
    simp [h.tree, treeOf]
  cases hnew : Odict.has st.members pk with
  | true => simp [GroupState.addMember, hnew] at hok
  | false =>
      simp only [GroupState.addMember, bind_apply, get_apply, hnew, Bool.false_eq_true,
        if_false, modify_apply, Odict.set_of_not_has hnew, hnodes] at hok
      by_cases hfull : st.members.length ≥ 4
      · obtain hlen : st.members.length = 4 := Nat.le_antisymm h.size hfull
        obtain ⟨e, he⟩ := rebuildTree_full (a := a) hfull h.leaves pk
        rw [if_pos hfull, hlen, bind_apply, he] at hok
        cases hok
      · have hlt : st.members.length < 4 := Nat.lt_of_not_le hfull
        have hset := onTree_treeOf { st with
          members := st.members ++ [(pk, ⟨pk, st.members.length⟩)] } hlt s h.tree
        rw [if_neg hfull] at hok
        simp only [bind_apply, hset, modify_apply] at hok
        obtain ⟨hsched, hgid, hepoch, -⟩ := rederive_scheduled rfl
          (by simp only [List.length_append, List.length_singleton]; omega)
          (fun e he => by
            rcases List.mem_append.mp he with he | he
            · exact h.leaves e he
            · rw [List.mem_singleton.mp he]
              exact hlt) hok
        exact ⟨hlt, hsched, hgid, hepoch⟩

theorem removeMember_ok {pk : Bytes} {s : K} {u : Unit} (h : Scheduled a raw st)
    (hok : GroupState.removeMember a pk s st = .ok u st') :
    ∃ m, Odict.get? st.members pk = some m ∧ m.leafIndex < 4 ∧
      Scheduled a (Function.update raw m.leafIndex s) st' ∧
      st'.groupId = st.groupId ∧ st'.epoch = st.epoch + 1 := by
  cases hget : Odict.get? st.members pk with
  | none => simp [GroupState.removeMember, hget] at hok
  | some m =>
      have hlt : m.leafIndex < 4 := h.leaves _ (Odict.mem_of_get? hget)
      have hset := onTree_treeOf { st with members := Odict.erase st.members pk }
        hlt s h.tree
      simp only [GroupState.removeMember, bind_apply, get_apply, hget, modify_apply, hset]
        at hok
      obtain ⟨hsched, hgid, hepoch, -⟩ := rederive_scheduled rfl
        ((List.length_filter_le _ _).trans h.size)
        (fun e he => h.leaves e (Odict.mem_erase.mp he).1) hok
      exact ⟨m, rfl, hlt, hsched, hgid, hepoch⟩

/-- The leaf a call writes: the next one for a new member, the member's own
for one that leaves. -/
def writtenLeaf (st : GroupState K) : GroupOp K → Option Nat
  | .add _ _ => some st.members.length
  | .remove pk _ => (Odict.get? st.members pk).map (·.leafIndex)

/-- A call that returns replaces one leaf secret and moves one epoch on. -/
theorem call_ok {op : GroupOp K} {u : Unit} (h : Scheduled a raw st)
    (hok : st.call a op = .ok u st') :
    ∃ l, writtenLeaf st op = some l ∧ l < 4 ∧
      Scheduled a (Function.update raw l op.secret) st' ∧
      st'.groupId = st.groupId ∧ st'.epoch = st.epoch + 1 := by
  cases op with
  | add pk s =>
      obtain ⟨hlt, hrest⟩ := addMember_ok h hok
      exact ⟨_, rfl, hlt, hrest⟩
  | remove pk s =>
      obtain ⟨m, hget, hlt, hrest⟩ := removeMember_ok h hok
      exact ⟨_, by rw [writtenLeaf, hget]; rfl, hlt, hrest⟩

end GhostChat.Proofs
