import GhostChat.Lib.HeapTree
import GhostChat.Ref.Group
import GhostChat.Ref.Sample
import Mathlib.Data.List.Induction
import Mathlib.Tactic.IntervalCases

/-!
# A tree is what its leaf secrets make it

`set_leaf` derives one leaf and walks up to the root, and the walk ends early
where a sibling is missing. The tree it leaves is the one that is computed
from the leaf secrets, from the leaves up and with no walk at all:
`fullTree`. So the order of the calls does not matter, nor how often a leaf is
set, only which secret each leaf was given last.

The walk is the repair of one leaf in the sense of `HeapTree`. After a round
that has written node `p` only the parent of `p` can be wrong; where a child
of it is missing it is not wrong, and nothing above it is.

In the model the loop has as many rounds as the index it starts from. `Climbs`
is the loop without a bound, and it comes to its end within them, since the
parent of a node has a smaller index and that of the root is `None`.
-/

namespace GhostChat.Proofs

open GhostChat.Lib GhostChat.Lib.Effect GhostChat.Ref

variable {K : Type} {a : KeyAlg K} {t t' : GroupTree K} {k l : Nat} {latest : Nat → Option K}

/-! ## From the leaves up -/

/-- What node `i` is as a leaf: derived from the secret its leaf was given
last. -/
def leafSecretAt (a : KeyAlg K) (leafOffset : Nat) (latest : Nat → Option K) (i : Nat) :
    Option K :=
  (latest (i - leafOffset)).map fun s => deriveLeafNodeSecret a s (i - leafOffset)

def innerSecret (a : KeyAlg K) (i : Nat) (left right : K) : K :=
  deriveInternalNodeSecret a left right i

/-- The secret of node `i` in a tree with `2 ^ k` leaves: derived from both
children where both are defined, and none otherwise. -/
def nodeSecretAt (a : KeyAlg K) (k : Nat) (latest : Nat → Option K) : Nat → Option K :=
  HeapTree.valueAt (leafSecretAt a (2 ^ k - 1) latest) (innerSecret a) k

/-- The tree with `2 ^ k` leaves, recomputed. -/
def fullTree (a : KeyAlg K) (k : Nat) (latest : Nat → Option K) : GroupTree K where
  nodeSecrets := (List.range (2 ^ (k + 1) - 1)).map (nodeSecretAt a k latest)
  leafOffset := 2 ^ k - 1

/-- A tree with `2 ^ k` leaves and nothing in it. -/
def emptyTree (k : Nat) : GroupTree K where
  nodeSecrets := List.replicate (2 ^ (k + 1) - 1) none
  leafOffset := 2 ^ k - 1

/-! ## The nodes of a tree -/

/-- The secret of node `i`, if it has one. -/
def nodeAt (t : GroupTree K) (i : Nat) : Option K := (t.nodeSecrets[i]?).join

theorem getElem?_nodeAt {i : Nat} (hi : i < t.nodeSecrets.length) :
    t.nodeSecrets[i]? = some (nodeAt t i) := by
  rw [nodeAt, List.getElem?_eq_getElem hi]
  rfl

theorem nodeAt_set {i : Nat} (hi : i < t.nodeSecrets.length) (v : Option K) :
    nodeAt { t with nodeSecrets := t.nodeSecrets.set i v } = Function.update (nodeAt t) i v := by
  funext j
  rw [nodeAt]
  by_cases hij : j = i
  · rw [hij, List.getElem?_set_self hi, Function.update_self]
    rfl
  · rw [List.getElem?_set_ne (Ne.symm hij), Function.update_of_ne hij, nodeAt]

/-- The tree is laid out for `2 ^ k` leaves, and each node is what its children
or its leaf secret make it. -/
structure Recomputed (a : KeyAlg K) (k : Nat) (latest : Nat → Option K) (t : GroupTree K) :
    Prop where
  nodes : t.nodeSecrets.length = 2 * (2 ^ k - 1) + 1
  offset : t.leafOffset = 2 ^ k - 1
  settled : HeapTree.Settled (leafSecretAt a (2 ^ k - 1) latest) (innerSecret a) (2 ^ k - 1)
    (nodeAt t)

theorem nodeCount (k : Nat) : 2 ^ (k + 1) - 1 = 2 * (2 ^ k - 1) + 1 := by
  have hpos := Nat.two_pow_pos k
  rw [pow_succ]
  omega

theorem recomputed_iff : Recomputed a k latest t ↔ t = fullTree a k latest := by
  have hlength : (fullTree a k latest).nodeSecrets.length = 2 * (2 ^ k - 1) + 1 := by
    rw [fullTree, List.length_map, List.length_range, nodeCount]
  have hnode : ∀ i ≤ 2 * (2 ^ k - 1), (fullTree a k latest).nodeSecrets[i]?
      = some (nodeSecretAt a k latest i) := by
    intro i hi
    rw [fullTree, List.getElem?_map, List.getElem?_range (by rw [nodeCount]; omega)]
    rfl
  constructor
  · intro h
    have hsecrets : t.nodeSecrets = (fullTree a k latest).nodeSecrets := by
      refine List.ext_getElem? fun i => ?_
      by_cases hi : i ≤ 2 * (2 ^ k - 1)
      · rw [hnode i hi, getElem?_nodeAt (by rw [h.nodes]; omega),
          HeapTree.settled_iff.mp h.settled i hi]
        rfl
      · rw [List.getElem?_eq_none (by rw [h.nodes]; omega),
          List.getElem?_eq_none (by rw [hlength]; omega)]
    obtain ⟨secrets, offset⟩ := t
    have hoffset : offset = 2 ^ k - 1 := h.offset
    rw [hoffset, show secrets = _ from hsecrets]
    rfl
  · rintro rfl
    refine ⟨hlength, rfl, HeapTree.settled_iff.mpr fun i hi => ?_⟩
    rw [nodeAt, hnode i hi]
    rfl

theorem emptyTree_recomputed : Recomputed a k (fun _ => none) (emptyTree k) where
  nodes := by rw [emptyTree, List.length_replicate, nodeCount]
  offset := rfl
  settled := by
    have hnone : nodeAt (emptyTree k : GroupTree K) = fun _ => none := by
      funext i
      rw [nodeAt, emptyTree, List.getElem?_replicate]
      split <;> rfl
    rw [hnone]
    refine HeapTree.settled_of_expected fun i _ => ?_
    rw [HeapTree.expected]
    split <;> rfl

/-! ## The walk -/

/-- The loop of `_recompute_path` above node `idx`, with no bound on its
rounds: it comes to an end, and leaves `t'`. -/
inductive Climbs (a : KeyAlg K) : Nat → GroupTree K → GroupTree K → Prop
  | root {idx : Nat} {t : GroupTree K} (hroot : GroupTree.parentIndex idx = none) :
      Climbs a idx t t
  | missing {idx parent : Nat} {t : GroupTree K} {left right : Option K}
      (hparent : GroupTree.parentIndex idx = some parent)
      (hleft : t.nodeSecrets[2 * parent + 1]? = some left)
      (hright : t.nodeSecrets[2 * parent + 2]? = some right)
      (hmissing : left = none ∨ right = none) : Climbs a idx t t
  | up {idx parent : Nat} {t t' : GroupTree K} {left right : K}
      (hparent : GroupTree.parentIndex idx = some parent)
      (hleft : t.nodeSecrets[2 * parent + 1]? = some (some left))
      (hright : t.nodeSecrets[2 * parent + 2]? = some (some right))
      (hrest : Climbs a parent { t with
        nodeSecrets := t.nodeSecrets.set parent
          (some (deriveInternalNodeSecret a left right parent)) } t') :
      Climbs a idx t t'

/-- `set_leaf` writes the leaf, its walk comes to an end, and `t'` is what it
leaves. -/
def SetLeafEnds (a : KeyAlg K) (t : GroupTree K) (l : Nat) (s : K) (t' : GroupTree K) : Prop :=
  t.leafNodeIndex l < t.nodeSecrets.length ∧
    Climbs a (t.leafNodeIndex l) { t with
      nodeSecrets := t.nodeSecrets.set (t.leafNodeIndex l)
        (some (deriveLeafNodeSecret a s l)) } t'

theorem parentIndex_eq (idx : Nat) : GroupTree.parentIndex idx = HeapTree.parent idx := rfl

/-- From a tree in which only the parent of `idx` may be wrong the walk leaves
one in which nothing is, and does so in at most `idx` rounds. -/
theorem recomputePath_settles {leaf : Nat → Option K} {inner : Nat} (fuel : Nat) :
    ∀ (idx : Nat) (t : GroupTree K), idx ≤ fuel → idx ≤ 2 * inner →
      t.nodeSecrets.length = 2 * inner + 1 →
      HeapTree.SettledBut leaf (innerSecret a) inner (nodeAt t) (HeapTree.parent idx) →
      ∃ t', GroupTree.recomputePath a fuel idx t = .ok () t' ∧ Climbs a idx t t' ∧
        t'.nodeSecrets.length = 2 * inner + 1 ∧ t'.leafOffset = t.leafOffset ∧
        HeapTree.Settled leaf (innerSecret a) inner (nodeAt t') := by
  induction fuel with
  | zero =>
      intro idx t hfuel _ hlen h
      obtain rfl : idx = 0 := Nat.le_zero.mp hfuel
      exact ⟨t, rfl, .root rfl, hlen, rfl, h⟩
  | succ fuel ih =>
      intro idx t hfuel hidx hlen h
      rw [GroupTree.recomputePath]
      cases hp : GroupTree.parentIndex idx with
      | none =>
          rw [← parentIndex_eq, hp] at h
          exact ⟨t, rfl, .root hp, hlen, rfl, h⟩
      | some parent =>
          rw [← parentIndex_eq, hp] at h
          have hchild := HeapTree.parent_eq_some_iff.mp hp
          have hleft := getElem?_nodeAt (t := t) (i := 2 * parent + 1) (by omega)
          have hright := getElem?_nodeAt (t := t) (i := 2 * parent + 2) (by omega)
          simp only [bind_apply, get_apply]
          cases hl : nodeAt t (2 * parent + 1) with
          | none =>
              rw [hl] at hleft
              rw [hleft, hright]
              exact ⟨t, rfl, .missing hp hleft hright (Or.inl rfl), hlen, rfl,
                h.stop (by omega) (Or.inl hl)⟩
          | some left =>
              rw [hl] at hleft
              cases hr : nodeAt t (2 * parent + 2) with
              | none =>
                  rw [hr] at hright
                  rw [hleft, hright]
                  exact ⟨t, rfl, .missing hp hleft hright (Or.inr rfl), hlen, rfl,
                    h.stop (by omega) (Or.inr hr)⟩
              | some right =>
                  rw [hr] at hright
                  rw [hleft, hright]
                  have hvalue : HeapTree.expected leaf (innerSecret a) inner (nodeAt t) parent
                      = some (deriveInternalNodeSecret a left right parent) := by
                    rw [HeapTree.expected, if_pos (by omega), hl, hr]
                    rfl
                  have hwritten := h.write hvalue
                  rw [← nodeAt_set (by omega)] at hwritten
                  obtain ⟨t', hrun, hclimbs, hlen', hoffset, hsettled⟩ := ih parent _ (by omega)
                    (by omega) (by rw [List.length_set]; exact hlen) hwritten
                  exact ⟨t', hrun, .up hp hleft hright hclimbs, hlen', hoffset, hsettled⟩

/-- One call on a recomputed tree leaves the tree with the new secret,
recomputed. -/
theorem setLeaf_recomputed (h : Recomputed a k latest t) (hl : l < 2 ^ k) (s : K) :
    ∃ t', GroupTree.setLeaf a l s t = .ok () t' ∧ SetLeafEnds a t l s t' ∧
      Recomputed a k (Function.update latest l (some s)) t' := by
  have hindex : t.leafNodeIndex l = 2 ^ k - 1 + l := by rw [GroupTree.leafNodeIndex, h.offset]
  have hin : t.leafNodeIndex l < t.nodeSecrets.length := by
    rw [hindex, h.nodes]
    omega
  have hsub : 2 ^ k - 1 + l - (2 ^ k - 1) = l := Nat.add_sub_cancel_left _ _
  have hleaf : ∀ i, 2 ^ k - 1 ≤ i → i ≠ t.leafNodeIndex l →
      leafSecretAt a (2 ^ k - 1) (Function.update latest l (some s)) i
        = leafSecretAt a (2 ^ k - 1) latest i := by
    intro i hi hne
    rw [leafSecretAt, leafSecretAt, Function.update_of_ne (by omega)]
  have hvalue : HeapTree.expected (leafSecretAt a (2 ^ k - 1) (Function.update latest l (some s)))
      (innerSecret a) (2 ^ k - 1) (nodeAt t) (t.leafNodeIndex l)
        = some (deriveLeafNodeSecret a s l) := by
    rw [HeapTree.expected, if_neg (by omega), hindex, leafSecretAt, hsub, Function.update_self]
    rfl
  have hwritten := (HeapTree.SettledBut.newLeaf h.settled hleaf).write hvalue
  rw [← nodeAt_set hin] at hwritten
  obtain ⟨t', hrun, hclimbs, hlen, hoffset, hsettled⟩ := recomputePath_settles (a := a)
    (t.leafNodeIndex l) (t.leafNodeIndex l) _ (Nat.le_refl _) (by rw [h.nodes] at hin; omega)
    (by rw [List.length_set]; exact h.nodes) hwritten
  refine ⟨t', ?_, ⟨hin, hclimbs⟩, hlen, hoffset.trans h.offset, hsettled⟩
  rw [GroupTree.setLeaf, bind_apply, get_apply]
  simp only [if_pos hin, bind_apply, modify_apply]
  exact hrun

/-- The same, of the tree itself. -/
theorem setLeaf_fullTree (hl : l < 2 ^ k) (latest : Nat → Option K) (s : K) :
    GroupTree.setLeaf a l s (fullTree a k latest)
        = .ok () (fullTree a k (Function.update latest l (some s))) ∧
      SetLeafEnds a (fullTree a k latest) l s
        (fullTree a k (Function.update latest l (some s))) := by
  obtain ⟨t', hset, hends, h⟩ :=
    setLeaf_recomputed (recomputed_iff.mpr (rfl : fullTree a k latest = _)) hl s
  rw [← recomputed_iff.mp h]
  exact ⟨hset, hends⟩

/-! ## Any number of calls -/

/-- `for l, secret in calls: tree.set_leaf(l, secret)`. -/
def setLeaves (a : KeyAlg K) : List (Nat × K) → EStateM Exn (GroupTree K) Unit
  | [] => pure ()
  | (l, secret) :: rest => do
      GroupTree.setLeaf a l secret
      setLeaves a rest

/-- The secret that leaf `l` was given last. -/
def latestSecret (calls : List (Nat × K)) (l : Nat) : Option K :=
  ((calls.filter (·.1 = l)).getLast?).map (·.2)

theorem latestSecret_concat (calls : List (Nat × K)) (l : Nat) (s : K) :
    latestSecret (calls ++ [(l, s)]) = Function.update (latestSecret calls) l (some s) := by
  funext l'
  rw [latestSecret, List.filter_append]
  by_cases hl : l' = l
  · rw [hl, Function.update_self, List.filter_cons_of_pos (by simp), List.filter_nil,
      List.getLast?_concat]
    rfl
  · rw [Function.update_of_ne hl, List.filter_cons_of_neg (by simpa using Ne.symm hl),
      List.filter_nil, List.append_nil, latestSecret]

theorem latestSecret_ne_none_iff {calls : List (Nat × K)} :
    latestSecret calls l ≠ none ↔ ∃ s, (l, s) ∈ calls := by
  rw [latestSecret, ne_eq, Option.map_eq_none_iff, List.getLast?_eq_none_iff,
    List.filter_eq_nil_iff]
  simp

theorem setLeaves_concat (calls : List (Nat × K)) (l : Nat) (s : K) (t : GroupTree K) :
    setLeaves a (calls ++ [(l, s)]) t
      = (setLeaves a calls >>= fun _ => GroupTree.setLeaf a l s) t := by
  induction calls generalizing t with
  | nil =>
      simp only [List.nil_append, setLeaves, bind_apply, pure_apply]
      cases GroupTree.setLeaf a l s t <;> rfl
  | cons c calls ih =>
      obtain ⟨l', s'⟩ := c
      simp only [List.cons_append, setLeaves, bind_apply]
      cases GroupTree.setLeaf a l' s' t with
      | error e t' => rfl
      | ok u t' => exact ih t'

theorem setLeaves_fullTree {calls : List (Nat × K)} (hrange : ∀ c ∈ calls, c.1 < 2 ^ k) :
    setLeaves a calls (emptyTree k) = .ok () (fullTree a k (latestSecret calls)) := by
  induction calls using List.reverseRecOn with
  | nil =>
      have hempty : emptyTree k = fullTree a k (latestSecret []) :=
        recomputed_iff.mp emptyTree_recomputed
      rw [← hempty]
      rfl
  | append_singleton calls c ih =>
      obtain ⟨l, s⟩ := c
      have hl : l < 2 ^ k := hrange (l, s) (List.mem_append_right _ List.mem_cons_self)
      have hbefore := ih fun c hc => hrange c (List.mem_append_left _ hc)
      rw [setLeaves_concat, bind_apply, hbefore, latestSecret_concat]
      exact (setLeaf_fullTree hl _ s).1

/-- The root of a recomputed tree is there when all leaves are. -/
theorem fullTree_root_iff : (fullTree a k latest).rootSecret ≠ none ↔
    ∀ l < 2 ^ k, latest l ≠ none := by
  have hroot : (fullTree a k latest).rootSecret
      = HeapTree.value (leafSecretAt a (2 ^ k - 1) latest) (innerSecret a) k 0 := by
    have hpos : 0 < 2 ^ (k + 1) - 1 := by
      rw [nodeCount]
      omega
    rw [GroupTree.rootSecret, fullTree, List.getElem?_map, List.getElem?_range hpos]
    rfl
  have hpos := Nat.two_pow_pos k
  rw [hroot, HeapTree.value_ne_none_iff]
  constructor
  · intro h l hl
    have hleaf := h (2 ^ k - 1 + l) (by omega) (by omega)
    rw [leafSecretAt, Nat.add_sub_cancel_left, ne_eq, Option.map_eq_none_iff] at hleaf
    exact hleaf
  · intro h j hlo hhi
    rw [leafSecretAt, ne_eq, Option.map_eq_none_iff]
    exact h _ (by omega)

/-- However the leaves of an empty tree with `2 ^ k` leaves are set, in any
order and as often as one likes: each call comes to an end, and the tree is
the one recomputed from the secrets the leaves were given last. It has a root
secret exactly if each leaf was given one. -/
theorem incremental_tree_full (a : KeyAlg K) (k : Nat) {calls : List (Nat × K)}
    (hrange : ∀ c ∈ calls, c.1 < 2 ^ k) :
    setLeaves a calls (emptyTree k) = .ok () (fullTree a k (latestSecret calls)) ∧
      (∀ before l s after, calls = before ++ (l, s) :: after →
        SetLeafEnds a (fullTree a k (latestSecret before)) l s
          (fullTree a k (latestSecret (before ++ [(l, s)])))) ∧
      ((fullTree a k (latestSecret calls)).rootSecret ≠ none ↔
        ∀ l < 2 ^ k, ∃ s, (l, s) ∈ calls) := by
  refine ⟨setLeaves_fullTree hrange, fun before l s after hcalls => ?_, ?_⟩
  · have hl : l < 2 ^ k := by
      refine hrange (l, s) ?_
      rw [hcalls]
      exact List.mem_append_right _ List.mem_cons_self
    rw [latestSecret_concat]
    exact (setLeaf_fullTree hl _ s).2
  · rw [fullTree_root_iff]
    simp only [latestSecret_ne_none_iff]

/-- Four leaves out of order, one of them set twice. -/
def sampleCalls : List (Nat × Bytes) :=
  [(2, mix [1]), (0, mix [2]), (2, mix [3]), (3, mix [4]), (1, mix [5])]

theorem incremental_tree_full_disorder :
    setLeaves sampleCrypto.toKeyAlg sampleCalls (emptyTree 2)
        = .ok () (fullTree sampleCrypto.toKeyAlg 2 (latestSecret sampleCalls)) ∧
      (fullTree sampleCrypto.toKeyAlg 2 (latestSecret sampleCalls)).rootSecret ≠ none := by
  obtain ⟨hrun, -, hroot⟩ := incremental_tree_full sampleCrypto.toKeyAlg 2
    (show ∀ c ∈ sampleCalls, c.1 < 2 ^ 2 by decide)
  refine ⟨hrun, hroot.mpr fun l hl => ?_⟩
  interval_cases l
  · exact ⟨mix [2], by decide⟩
  · exact ⟨mix [5], by decide⟩
  · exact ⟨mix [3], by decide⟩
  · exact ⟨mix [4], by decide⟩

end GhostChat.Proofs
