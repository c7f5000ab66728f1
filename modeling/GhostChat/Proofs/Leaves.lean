import GhostChat.Proofs.Group
import GhostChat.Ref.Sample
import Mathlib.Data.List.Nodup

/-!
# Who has which leaf

A new member is given the leaf whose number is the number of members. That is
a free leaf as long as nobody has left: the members of a new group have the
leaves from 0 on. After a removal the number of members may be the leaf of
somebody who is still there, and with four members it is no leaf at all, which
`add_member` notices only when the new member is in the map.

Nothing else goes wrong. The tree has seven nodes for ever, a removal frees
exactly one leaf, and a call that raises leaves the map as its first assignment
left it. So the leaves of a run are sound in every state exactly if each new
member came when the next leaf was there and was nobody's.
-/

namespace GhostChat.Proofs

open GhostChat.Lib GhostChat.Lib.Effect GhostChat.Ref

variable {K : Type} {a : KeyAlg K} {st : GroupState K}

/-! ## The tree keeps its shape -/

def leafCount (t : GroupTree K) : Nat := (t.nodeSecrets.length + 1) / 2

/-- Seven nodes, the last four of them leaves. -/
structure Shaped (t : GroupTree K) : Prop where
  nodes : t.nodeSecrets.length = 7
  offset : t.leafOffset = 3

theorem Shaped.leafCount_eq {t : GroupTree K} (h : Shaped t) : leafCount t = 4 := by
  rw [leafCount, h.nodes]

theorem Shaped.setNode {t : GroupTree K} (h : Shaped t) (i : Nat) (v : Option K) :
    Shaped { t with nodeSecrets := t.nodeSecrets.set i v } :=
  ⟨by rw [List.length_set]; exact h.nodes, h.offset⟩

/-- The tree is laid out as `P` says, of the number of its nodes and the node of
its first leaf. -/
def Laid (P : Nat → Nat → Prop) (t : GroupTree K) : Prop := P t.nodeSecrets.length t.leafOffset

theorem shaped_iff {t : GroupTree K} : Shaped t ↔ Laid (fun n o => n = 7 ∧ o = 3) t :=
  ⟨fun h => ⟨h.nodes, h.offset⟩, fun h => ⟨h.1, h.2⟩⟩

section Laid

variable {P : Nat → Nat → Prop}

theorem Laid.setNode {t : GroupTree K} (h : Laid P t) (i : Nat) (v : Option K) :
    Laid P { t with nodeSecrets := t.nodeSecrets.set i v } := by
  rw [Laid, List.length_set]
  exact h

/-- Recomputing a path writes ancestors only, each from its children. -/
theorem recomputePath_keeps {I : GroupTree K → Prop} :
    ∀ (fuel idx : Nat), (∀ parent t left right, 2 * parent < idx → I t →
        I { t with
          nodeSecrets := t.nodeSecrets.set parent
            (some (deriveInternalNodeSecret a left right parent)) }) →
      Keeps I (GroupTree.recomputePath a fuel idx) := by
  intro fuel
  induction fuel with
  | zero => intro idx _; exact keeps_pure ()
  | succ fuel ih =>
      intro idx hset
      rw [GroupTree.recomputePath]
      cases hp : GroupTree.parentIndex idx with
      | none => exact keeps_pure ()
      | some parent =>
          have hparent : 2 * parent < idx := by
            rw [GroupTree.parentIndex] at hp
            split at hp
            · cases hp
            · injection hp with hp
              omega
          refine keeps_get_bind fun t ht => ?_
          generalize t.nodeSecrets[2 * parent + 1]? = left
          generalize t.nodeSecrets[2 * parent + 2]? = right
          -- Anything but two set children ends the walk where it is.
          rcases left with _ | _ | left
          · exact ht
          · cases right with
            | none => exact ht
            | some right => exact ht
          · rcases right with _ | _ | right
            · exact ht
            · exact ht
            · exact keeps_bind (keeps_modify fun t' ht' => hset parent t' _ _ hparent ht')
                (fun _ => ih parent fun p t' l r hlt => hset p t' l r (by omega)) t ht

theorem setLeaf_laid (l : Nat) (s : K) : Keeps (Laid (K := K) P) (GroupTree.setLeaf a l s) := by
  refine keeps_get_bind fun t ht => ?_
  rw [ite_run]
  split
  · exact recomputePath_keeps _ _ (fun _ _ _ _ _ h => h.setNode _ _) _ (ht.setNode _ _)
  · exact ht

end Laid

theorem setLeaf_shaped (l : Nat) (s : K) :
    Keeps (Shaped (K := K)) (GroupTree.setLeaf a l s) := fun t ht =>
  shaped_iff.mpr (setLeaf_laid l s t (shaped_iff.mp ht))

/-- Writing one leaf leaves every other leaf as it was. -/
theorem setLeaf_other {t : GroupTree K} (ht : Shaped t) {l l' : Nat} (hne : l ≠ l') (s : K) :
    (after (GroupTree.setLeaf a l s t)).nodeSecrets[t.leafNodeIndex l']?
      = t.nodeSecrets[t.leafNodeIndex l']? := by
  have hl : t.leafNodeIndex l = 3 + l := by rw [GroupTree.leafNodeIndex, ht.offset]
  have hl' : t.leafNodeIndex l' = 3 + l' := by rw [GroupTree.leafNodeIndex, ht.offset]
  simp only [GroupTree.setLeaf, bind_apply, get_apply, ite_run]
  split
  · next hlt =>
      rw [ht.nodes] at hlt
      -- No ancestor of a leaf is a leaf.
      have hinner : ∀ v parent (t' : GroupTree K) left right, 2 * parent < t.leafNodeIndex l →
          t'.nodeSecrets[t.leafNodeIndex l']? = v →
          (t'.nodeSecrets.set parent (some (deriveInternalNodeSecret a left right parent)))[
            t.leafNodeIndex l']? = v := by
        intro v parent t' left right hparent ht'
        rw [List.getElem?_set_ne (by omega)]
        exact ht'
      rw [modify_apply]
      refine (recomputePath_keeps _ _ (hinner _) _ rfl).trans ?_
      exact List.getElem?_set_ne (by omega)
  · rfl

/-! ## What a call leaves in the map -/

/-- The map is this one, and the tree has `I`. -/
def MapKept (members : Odict Bytes GroupMember) (I : GroupTree K → Prop) (st : GroupState K) :
    Prop := st.members = members ∧ I st.tree

section MapKept

variable {members : Odict Bytes GroupMember} {I : GroupTree K → Prop}
  (hset : ∀ l s, Keeps I (GroupTree.setLeaf a l s))
  (hfresh : ∀ n t, GroupTree.forMemberCount n = .ok t → I t)

include hset

theorem onTree_mapKept (l : Nat) (s : K) :
    Keeps (MapKept members I) (onTree (GroupTree.setLeaf a l s)) := by
  intro st h
  have hkept := hset l s st.tree h.2
  rw [onTree, zoom]
  cases hleaf : GroupTree.setLeaf a l s st.tree with
  | ok u t => rw [hleaf] at hkept; exact ⟨h.1, hkept⟩
  | error e t => rw [hleaf] at hkept; exact ⟨h.1, hkept⟩

omit hset in
theorem rederive_mapKept : Keeps (MapKept members I) (GroupState.rederiveGroupSecret a) := by
  refine keeps_get_bind fun st h => ?_
  cases st.tree.rootSecret with
  | none => exact h
  | some root =>
      refine keeps_bind (keeps_lift _) (fun _ => ?_) st h
      refine keeps_bind (keeps_modify fun _ h' => h') fun _ => ?_
      exact keeps_bind (keeps_lift _) fun _ => keeps_modify fun _ h' => h'

theorem rekeyLeaves_kept {secret : Option K} {t t' : GroupTree K} (ht : I t)
    {ms : List GroupMember} (h : GroupState.rekeyLeaves a secret ms t = .ok t') : I t' := by
  induction ms generalizing t with
  | nil => cases h; exact ht
  | cons m ms ih =>
      obtain ⟨t₁, h₁, h⟩ := except_bind_ok h
      have hkept := hset m.leafIndex (rekeySecret a secret m.leafIndex) t ht
      rw [onFreshTree] at h₁
      cases hleaf : GroupTree.setLeaf a m.leafIndex (rekeySecret a secret m.leafIndex) t with
      | ok u t₂ =>
          rw [hleaf] at h₁ hkept
          cases h₁
          exact ih hkept h
      | error e t₂ => rw [hleaf] at h₁; cases h₁

/-- Both calls end the same way: a leaf is written, the epoch moves on and the
secrets are derived again. -/
theorem rekey_mapKept (l : Nat) (s : K) :
    Keeps (MapKept members I) (do
      onTree (GroupTree.setLeaf a l s)
      modify fun st : GroupState K => { st with epoch := st.epoch + 1 }
      GroupState.rederiveGroupSecret a) :=
  keeps_bind (onTree_mapKept hset l s) fun _ =>
    keeps_bind (keeps_modify fun _ h => h) fun _ => rederive_mapKept

theorem removeMember_mapKept (htree : I st.tree) (pk : Bytes) (s : K) :
    MapKept (Odict.erase st.members pk) I (after (GroupState.removeMember a pk s st)) := by
  simp only [GroupState.removeMember, bind_apply, get_apply]
  cases hget : Odict.get? st.members pk with
  | none =>
      have hnone : Odict.has st.members pk = false := Odict.has_eq_false_iff.mpr hget
      exact ⟨(Odict.erase_of_not_has hnone).symm, htree⟩
  | some m => exact rekey_mapKept hset _ s _ ⟨rfl, htree⟩

include hfresh

theorem rebuildTree_mapKept (newIndex : Nat) :
    Keeps (MapKept members I) (GroupState.rebuildTree a newIndex) := by
  refine keeps_get_bind fun st h => ?_
  simp only [bind_apply]
  generalize (st.members.map (·.2)).filter (·.leafIndex < newIndex) = old
  cases hnew : (GroupTree.forMemberCount (old.length + 1) : Except Exn (GroupTree K)) with
  | error e => exact h
  | ok t =>
      rw [lift_ok]
      dsimp only
      cases hrekey : GroupState.rekeyLeaves a st.groupSecret old t with
      | error e => exact h
      | ok t' => exact ⟨h.1, rekeyLeaves_kept hset (hfresh _ _ hnew) hrekey⟩

/-- A new member is in the map, at the end, however the call ends. -/
theorem addMember_mapKept (htree : I st.tree) {pk : Bytes}
    (hnew : Odict.has st.members pk = false) (s : K) :
    MapKept (st.members ++ [(pk, ⟨pk, st.members.length⟩)]) I
      (after (GroupState.addMember a pk s st)) := by
  simp only [GroupState.addMember, bind_apply, get_apply, hnew, Bool.false_eq_true, if_false,
    modify_apply, Odict.set_of_not_has hnew]
  split
  · exact keeps_bind (rebuildTree_mapKept hset hfresh _) (fun _ => rekey_mapKept hset _ s) _
      ⟨rfl, htree⟩
  · exact rekey_mapKept hset _ s _ ⟨rfl, htree⟩

end MapKept

/-- Every new tree has seven nodes. -/
theorem forMemberCount_laid {P : Nat → Nat → Prop} (hseven : P 7 3) (n : Nat) (t : GroupTree K)
    (h : GroupTree.forMemberCount n = .ok t) : Laid P t := by
  rw [GroupTree.forMemberCount] at h
  split at h
  · cases h
  · split at h
    · cases h
    · cases h
      exact hseven

theorem forMemberCount_shaped (n : Nat) (t : GroupTree K)
    (h : GroupTree.forMemberCount n = .ok t) : Shaped t :=
  shaped_iff.mpr (forMemberCount_laid ⟨rfl, rfl⟩ n t h)

/-- From here on a call changes neither the map nor the shape of the tree. -/
def Mapped (members : Odict Bytes GroupMember) (st : GroupState K) : Prop :=
  st.members = members ∧ Shaped st.tree

variable {members : Odict Bytes GroupMember}

theorem rebuildTree_mapped (newIndex : Nat) :
    Keeps (Mapped members) (GroupState.rebuildTree a newIndex) :=
  rebuildTree_mapKept setLeaf_shaped forMemberCount_shaped newIndex

theorem addMember_mapped (hshape : Shaped st.tree) {pk : Bytes}
    (hnew : Odict.has st.members pk = false) (s : K) :
    Mapped (st.members ++ [(pk, ⟨pk, st.members.length⟩)])
      (after (GroupState.addMember a pk s st)) :=
  addMember_mapKept setLeaf_shaped forMemberCount_shaped hshape hnew s

theorem removeMember_mapped (hshape : Shaped st.tree) (pk : Bytes) (s : K) :
    Mapped (Odict.erase st.members pk) (after (GroupState.removeMember a pk s st)) :=
  removeMember_mapKept setLeaf_shaped hshape pk s

/-! ## Sound leaves -/

/-- The leaf of each member, in the order of the map. -/
def leafIndexes (st : GroupState K) : List Nat := st.members.map (·.2.leafIndex)

/-- Every member has a leaf of its own: the indexes are distinct and in range,
writing the leaf of one member leaves the leaf nodes of the others as they
were, and `validate` has no duplicate to report. -/
structure LeavesSound (a : KeyAlg K) (st : GroupState K) : Prop where
  distinct : (leafIndexes st).Nodup
  inRange : ∀ l ∈ leafIndexes st, l < leafCount st.tree
  separate : ∀ e ∈ st.members, ∀ e' ∈ st.members, e.1 ≠ e'.1 → ∀ s : K,
    (after (GroupTree.setLeaf a e.2.leafIndex s st.tree)).nodeSecrets[
        st.tree.leafNodeIndex e'.2.leafIndex]?
      = st.tree.nodeSecrets[st.tree.leafNodeIndex e'.2.leafIndex]?
  unreported : ∀ errors, st.validate a = .ok errors →
    ∀ i, duplicateLeafError i ∉ errors

theorem duplicateErrors_nodup {seen : List Nat} {ms : List GroupMember}
    (hnd : (ms.map (·.leafIndex)).Nodup) (hseen : ∀ m ∈ ms, m.leafIndex ∉ seen) :
    duplicateErrors seen ms = [] := by
  induction ms generalizing seen with
  | nil => rfl
  | cons m ms ih =>
      rw [List.map_cons, List.nodup_cons] at hnd
      rw [duplicateErrors, if_neg (hseen m List.mem_cons_self), List.nil_append]
      refine ih hnd.2 fun m' hm' hmem => ?_
      rcases List.mem_cons.mp hmem with heq | hmem
      · exact hnd.1 (heq ▸ List.mem_map_of_mem hm')
      · exact hseen m' (List.mem_cons_of_mem m hm') hmem

theorem duplicateLeafError_head (i : Nat) :
    (duplicateLeafError i).toList.head? = some 'd' := by
  have h : ∀ s : String, ("duplicate leaf_index " ++ s).toList.head? = some 'd' := by
    intro s
    rw [String.toList_append]
    rfl
  exact h _

/-- No other complaint of `validate` reads like a duplicate leaf: they start
with other letters. -/
theorem validate_duplicate {errors : List String} {i : Nat} (h : st.validate a = .ok errors)
    (hmem : duplicateLeafError i ∈ errors) :
    duplicateLeafError i ∈ duplicateErrors [] (st.members.map (·.2)) := by
  have hother : ∀ msg : String, msg.toList.head? ≠ some 'd' → duplicateLeafError i ≠ msg := by
    rintro msg hmsg rfl
    exact hmsg (duplicateLeafError_head i)
  have hopt : ∀ (p : Prop) [Decidable p] (msg : String), msg.toList.head? ≠ some 'd' →
      duplicateLeafError i ∉ (if p then [msg] else []) := by
    intro p _ msg hmsg hin
    split at hin
    · exact hother msg hmsg (List.mem_singleton.mp hin)
    · cases hin
  obtain ⟨hashErrors, hhash, h⟩ := except_bind_ok h
  have hno : duplicateLeafError i ∉ hashErrors := by
    rw [groupHashErrors] at hhash
    cases hgh : st.groupHash with
    | none =>
        rw [hgh] at hhash
        cases hhash
        exact fun hin => hother _ (by decide) (List.mem_singleton.mp hin)
    | some gh =>
        rw [hgh] at hhash
        obtain ⟨computed, -, hhash⟩ := except_bind_ok hhash
        cases hhash
        exact hopt _ _ (by decide)
  cases h
  simp only [List.mem_append] at hmem
  rcases hmem with (((((hin | hin) | hin) | hin) | hin) | hin) | hin
  · exact absurd hin (hopt _ _ (by decide))
  · exact absurd hin (hopt _ _ (by decide))
  · exact absurd hin (hopt _ _ (by decide))
  · exact absurd hin (hopt _ _ (by decide))
  · exact absurd hin (hopt _ _ (by decide))
  · exact absurd hin hno
  · exact hin

/-- The map and the shape decide it. -/
theorem leavesSound_iff (hshape : Shaped st.tree) :
    LeavesSound a st ↔ (leafIndexes st).Nodup ∧ ∀ l ∈ leafIndexes st, l < 4 := by
  constructor
  · intro h
    have hrange := h.inRange
    rw [hshape.leafCount_eq] at hrange
    exact ⟨h.distinct, hrange⟩
  · rintro ⟨hnd, hrange⟩
    refine ⟨hnd, by rwa [hshape.leafCount_eq], fun e he e' he' hne s => ?_, ?_⟩
    · refine setLeaf_other hshape (fun hl => hne ?_) s
      rw [List.inj_on_of_nodup_map hnd he he' hl]
    · intro errors h i hmem
      have hdup := validate_duplicate h hmem
      rw [duplicateErrors_nodup (by rw [List.map_map]; exact hnd)
        fun m _ hm => by cases hm] at hdup
      cases hdup

/-! ## Runs -/

/-- One call, returned or raised. -/
def callStep (a : KeyAlg K) (st : GroupState K) (op : GroupOp K) : GroupState K :=
  after (st.call a op)

/-- A new member finds the next leaf there and free. -/
def FreshLeaf (st : GroupState K) : GroupOp K → Prop
  | .add pk _ => Odict.has st.members pk = false →
      st.members.length < leafCount st.tree ∧ st.members.length ∉ leafIndexes st
  | .remove _ _ => True

instance FreshLeaf.decidable (st : GroupState K) : (op : GroupOp K) → Decidable (FreshLeaf st op)
  | .add pk _ => inferInstanceAs (Decidable (Odict.has st.members pk = false → _ ∧ _))
  | .remove _ _ => isTrue trivial

theorem callStep_kept {I : GroupTree K → Prop} (hset : ∀ l s, Keeps I (GroupTree.setLeaf a l s))
    (hfresh : ∀ n t, GroupTree.forMemberCount n = .ok t → I t) (op : GroupOp K)
    (htree : I st.tree) : I (callStep a st op).tree := by
  cases op with
  | add pk s =>
      cases hnew : Odict.has st.members pk with
      | false => exact (addMember_mapKept hset hfresh htree hnew s).2
      | true =>
          rw [callStep, GroupState.call]
          simpa [GroupState.addMember, hnew] using htree
  | remove pk s => exact (removeMember_mapKept hset htree pk s).2

theorem callStep_shaped (op : GroupOp K) (hshape : Shaped st.tree) :
    Shaped (callStep a st op).tree :=
  callStep_kept setLeaf_shaped forMemberCount_shaped op hshape

theorem callStep_leavesSound (op : GroupOp K) (hshape : Shaped st.tree)
    (h : LeavesSound a st) : LeavesSound a (callStep a st op) ↔ FreshLeaf st op := by
  rw [leavesSound_iff (callStep_shaped op hshape)]
  obtain ⟨hnd, hrange⟩ := (leavesSound_iff hshape).mp h
  cases op with
  | remove pk s =>
      refine iff_of_true ?_ trivial
      have hsub : (leafIndexes (callStep a st (.remove pk s))).Sublist (leafIndexes st) := by
        rw [leafIndexes, callStep, GroupState.call, (removeMember_mapped hshape pk s).1]
        exact List.filter_sublist.map _
      exact ⟨hnd.sublist hsub, fun l hl => hrange l (hsub.subset hl)⟩
  | add pk s =>
      cases hnew : Odict.has st.members pk with
      | true =>
          have hsame : callStep a st (.add pk s) = st := by
            rw [callStep, GroupState.call]
            simp [GroupState.addMember, hnew]
          rw [hsame]
          refine iff_of_true ⟨hnd, hrange⟩ fun hno => ?_
          rw [hnew] at hno
          cases hno
      | false =>
          have hadd : leafIndexes (callStep a st (.add pk s))
              = leafIndexes st ++ [st.members.length] := by
            rw [leafIndexes, callStep, GroupState.call, (addMember_mapped hshape hnew s).1,
              List.map_append]
            rfl
          rw [hadd]
          constructor
          · rintro ⟨hnd', hrange'⟩ -
            rw [hshape.leafCount_eq]
            refine ⟨hrange' _ (List.mem_append_right _ List.mem_cons_self), fun hin => ?_⟩
            exact (List.nodup_append.mp hnd').2.2 _ hin _ List.mem_cons_self rfl
          · intro hfresh
            obtain ⟨hlt, hfree⟩ := hfresh hnew
            rw [hshape.leafCount_eq] at hlt
            refine ⟨List.nodup_append.mpr ⟨hnd, List.nodup_singleton _, ?_⟩, fun l hl => ?_⟩
            · intro x hx y hy hxy
              rw [List.mem_singleton.mp hy] at hxy
              exact hfree (hxy ▸ hx)
            · rcases List.mem_append.mp hl with hl | hl
              · exact hrange l hl
              · rwa [List.mem_singleton.mp hl]

/-- The members of a new group have the leaves from 0 on, in order. -/
theorem placeMembers_leaves {ms : List (Bytes × K)} {k : Nat} {t t' : GroupTree K}
    {members' : Odict Bytes GroupMember}
    (h : GroupState.placeMembers a (ms.zipIdx k) (t, members) = .ok (t', members')) :
    members'.map (·.2.leafIndex)
      = members.map (·.2.leafIndex) ++ List.range' k ms.length := by
  induction ms generalizing k t members with
  | nil =>
      cases h
      exact (List.append_nil _).symm
  | cons m ms ih =>
      obtain ⟨pk, secret⟩ := m
      rw [List.zipIdx_cons, GroupState.placeMembers] at h
      split at h
      · cases h
      · next hnew =>
          obtain ⟨t₁, -, h⟩ := except_bind_ok h
          rw [ih h, Odict.set_of_not_has (Bool.eq_false_iff.mpr hnew), List.map_append,
            List.append_assoc, List.length_cons, List.range'_succ]
          rfl

/-- The map of a new group is what the loop over the members made. -/
theorem create_placed {groupId : Bytes} {ms : List (Bytes × K)}
    (h : GroupState.create a groupId ms = .ok st) :
    ∃ t t', GroupState.placeMembers a ms.zipIdx (t, []) = .ok (t', st.members) := by
  rw [GroupState.create] at h
  split at h
  · cases h
  split at h
  · cases h
  obtain ⟨t₀, -, h⟩ := except_bind_ok h
  obtain ⟨⟨t₁, members⟩, hplaced, h⟩ := except_bind_ok h
  obtain ⟨t₂, -, h⟩ := except_bind_ok h
  split at h
  · cases h
  · obtain ⟨es, -, h⟩ := except_bind_ok h
    obtain ⟨gh, -, h⟩ := except_bind_ok h
    cases h
    exact ⟨t₀, t₁, hplaced⟩

theorem create_leafIndexes {groupId : Bytes} {ms : List (Bytes × K)}
    (h : GroupState.create a groupId ms = .ok st) :
    leafIndexes st = List.range' 0 ms.length := by
  obtain ⟨t, t', hplaced⟩ := create_placed h
  exact placeMembers_leaves hplaced

theorem create_sound {groupId : Bytes} {ms : List (Bytes × K)}
    (h : GroupState.create a groupId ms = .ok st) : Shaped st.tree ∧ LeavesSound a st := by
  obtain ⟨hsched, -, -, hle⟩ := create_scheduled h
  have hshape : Shaped st.tree := by
    rw [hsched.tree]
    exact ⟨rfl, rfl⟩
  refine ⟨hshape, (leavesSound_iff hshape).mpr ?_⟩
  rw [create_leafIndexes h]
  refine ⟨List.nodup_range', fun l hl => ?_⟩
  have := (List.mem_range'_1.mp hl).2
  omega

/-- In every state of every run of calls from a new group, returned or raised,
the leaves are sound, exactly if each call that adds somebody new finds the
leaf with the number of members in the tree and in nobody's hands. -/
theorem leaves_sound_iff {groupId : Bytes} {ms : List (Bytes × K)}
    (h₀ : GroupState.create a groupId ms = .ok st) (ops : List (GroupOp K)) :
    (∀ n, LeavesSound a (runFrom (callStep a) st (ops.take n))) ↔
      Along (callStep a) FreshLeaf st ops := by
  obtain ⟨hshape, hsound⟩ := create_sound h₀
  refine Along.always_iff (I := fun st => Shaped st.tree) (fun _ op h => callStep_shaped op h)
    (fun _ op hshape h => callStep_leavesSound op hshape h) hshape hsound

/-- Three members, for the examples. -/
def sampleTrio : GroupState Bytes :=
  match GroupState.create sampleCrypto.toKeyAlg [7]
      [([1], mix [1]), ([2], mix [2]), ([3], mix [3])] with
  | .ok st => st
  | .error _ => ⟨[], 0, ⟨[], 0⟩, [], none, none, none⟩

theorem sampleTrio_created :
    GroupState.create sampleCrypto.toKeyAlg [7] [([1], mix [1]), ([2], mix [2]), ([3], mix [3])]
      = .ok sampleTrio := rfl

/-- The last one to come leaves and comes back. -/
theorem leaves_sound_rejoin :
    Along (callStep sampleCrypto.toKeyAlg) FreshLeaf sampleTrio
        [.add [4] (mix [4]), .remove [4] (mix [5]), .add [4] (mix [6])] ∧
      LeavesSound sampleCrypto.toKeyAlg (runFrom (callStep sampleCrypto.toKeyAlg) sampleTrio
        [.add [4] (mix [4]), .remove [4] (mix [5]), .add [4] (mix [6])]) := by
  have hfresh : Along (callStep sampleCrypto.toKeyAlg) FreshLeaf sampleTrio
      [.add [4] (mix [4]), .remove [4] (mix [5]), .add [4] (mix [6])] := by decide +kernel
  exact ⟨hfresh, (leaves_sound_iff sampleTrio_created _).mpr hfresh 3⟩

/-- The first of three leaves and a fourth comes: it gets leaf 2, which is
taken, its secret overwrites the leaf of its neighbour, and `validate` says so.
A fifth member is in the map, with leaf 4 of four. -/
theorem freed_leaf_not_reused :
    GroupState.create sampleCrypto.toKeyAlg [7] [([1], mix [1]), ([2], mix [2]), ([3], mix [3])]
        = .ok sampleTrio ∧
      ¬ LeavesSound sampleCrypto.toKeyAlg (runFrom (callStep sampleCrypto.toKeyAlg) sampleTrio
        [.remove [1] (mix [4]), .add [4] (mix [5])]) ∧
      (∃ errors, (runFrom (callStep sampleCrypto.toKeyAlg) sampleTrio
        [.remove [1] (mix [4]), .add [4] (mix [5])]).validate sampleCrypto.toKeyAlg
          = .ok errors ∧ duplicateLeafError 2 ∈ errors) ∧
      ¬ LeavesSound sampleCrypto.toKeyAlg (runFrom (callStep sampleCrypto.toKeyAlg) sampleTrio
        [.add [4] (mix [4]), .add [5] (mix [5])]) := by
  refine ⟨sampleTrio_created, fun h => ?_, ⟨_, rfl, ?_⟩, fun h => ?_⟩
  · exact absurd h.distinct (by decide +kernel)
  · exact List.mem_append_right _ (by decide +kernel)
  · exact absurd h.inRange (by decide +kernel)

end GhostChat.Proofs
