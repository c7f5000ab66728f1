import GhostChat.Proofs.GroupFiles
import GhostChat.Ref.GroupVerification

/-!
# What the group hash commits to

The hash is over one byte string: the group id, eight bytes of the epoch, the
members' identities in order, the root. Group ids and identities have any
length and none is written down, so the same bytes may be cut in more than one
way, and two groups with one root and bytes that differ in nothing but the
cuts have one hash.

There is no other way. Where the cuts are the same the parts are, so the hash
commits two groups to everything exactly if they are not one such string cut
differently. With group ids of one length and identities of one length they
never are.
-/

namespace GhostChat.Proofs

open GhostChat.Lib GhostChat.Lib.Effect GhostChat.Ref

/-! ## The bytes that are hashed -/

/-- A key is its bytes, the root has 32 of them, and the HKDF of the group hash
is injective on its input. -/
structure IdealHash (a : KeyAlg Bytes) : Prop where
  bytes : ∀ k, a.bytes k = k
  lit : ∀ b, a.lit b = b
  cat : ∀ x y, a.cat x y = x ++ y
  rootLength : ∀ left right, (deriveInternalNodeSecret a left right 0).length = 32
  injective : Function.Injective fun ikm =>
    a.hkdf ikm (a.lit (ascii "ghostchat-group-hash-salt")) (ascii "ghostchat-group-hash") 0

def epochBytes (epoch : Nat) : Bytes :=
  (List.range 8).map fun i => UInt8.ofNat (epoch / 256 ^ (8 - 1 - i))

def sortedIds {K : Type} (st : GroupState K) : List Bytes :=
  (Odict.keys st.members).mergeSort (· ≤ ·)

def rootBytes (st : GroupState Bytes) : Bytes := st.tree.rootSecret.getD []

def hashInput (st : GroupState Bytes) : Bytes :=
  st.groupId ++ (epochBytes st.epoch ++ ((sortedIds st).flatten ++ rootBytes st))

theorem epochBytes_length (epoch : Nat) : (epochBytes epoch).length = 8 := rfl

theorem fromBytesBig_epochBytes {epoch : Nat} (h : epoch < 2 ^ 64) :
    fromBytesBig (epochBytes epoch) = epoch := by
  simp only [fromBytesBig, epochBytes, List.range_succ, List.range_zero, List.map_cons,
    List.map_nil, List.nil_append, List.cons_append, List.foldl_cons, List.foldl_nil,
    UInt8.toNat_ofNat']
  omega

theorem epochBytes_inj {m n : Nat} (hm : m < 2 ^ 64) (hn : n < 2 ^ 64)
    (h : epochBytes m = epochBytes n) : m = n := by
  rw [← fromBytesBig_epochBytes hm, h, fromBytesBig_epochBytes hn]

section Hashed

variable {a : KeyAlg Bytes} {st st' : GroupState Bytes}

/-- The hash of a state is the hash of its bytes. -/
theorem computeGroupHash_ideal (ha : IdealHash a) (hepoch : st.epoch < 2 ^ 64) :
    st.computeGroupHash a = .ok (a.hkdf (hashInput st)
      (a.lit (ascii "ghostchat-group-hash-salt")) (ascii "ghostchat-group-hash") 0) := by
  have hpow : 256 ^ 8 = 2 ^ 64 := by norm_num
  rw [GroupState.computeGroupHash, toBytesBig, hpow, if_pos hepoch, except_ok_bind]
  have hpayload : st.groupId ++ (List.range 8).map (fun i =>
      UInt8.ofNat (st.epoch / 256 ^ (8 - 1 - i))) ++ (sortedIds st).flatten
        ++ rootBytes st = hashInput st := by
    rw [hashInput, epochBytes, List.append_assoc, List.append_assoc]
  rw [rootBytes] at hpayload
  rw [← hpayload, sortedIds]
  cases st.tree.rootSecret with
  | none =>
      simp only [ha.lit, Option.getD_none, List.append_nil]
      rfl
  | some root =>
      simp only [ha.lit, ha.cat, Option.getD_some]
      rfl

/-- There is one as long as the epoch fits in its eight bytes. -/
theorem computeGroupHash_ok_iff (ha : IdealHash a) {h : Bytes} :
    st.computeGroupHash a = .ok h ↔ st.epoch < 2 ^ 64 ∧
      a.hkdf (hashInput st) (a.lit (ascii "ghostchat-group-hash-salt"))
        (ascii "ghostchat-group-hash") 0 = h := by
  by_cases hepoch : st.epoch < 2 ^ 64
  · rw [computeGroupHash_ideal ha hepoch, Except.ok.injEq]
    exact (and_iff_right hepoch).symm
  · have hpow : 256 ^ 8 = 2 ^ 64 := by norm_num
    rw [GroupState.computeGroupHash, toBytesBig, hpow, if_neg hepoch]
    exact iff_of_false (by rintro ⟨⟩) fun h => hepoch h.1

/-- Sorting forgets the order, and nothing else. -/
theorem sortedIds_eq_iff (hnd : (Odict.keys st.members).Nodup)
    (hnd' : (Odict.keys st'.members).Nodup) :
    sortedIds st = sortedIds st' ↔
      ∀ pk, Odict.has st.members pk = Odict.has st'.members pk := by
  have hsorted : ∀ ids : List Bytes, (ids.mergeSort (· ≤ ·)).Pairwise (· ≤ ·) := fun ids =>
    List.pairwise_mergeSort' (· ≤ ·) ids
  have hmem : (∀ pk, Odict.has st.members pk = Odict.has st'.members pk) ↔
      (Odict.keys st.members).Perm (Odict.keys st'.members) := by
    rw [List.perm_ext_iff_of_nodup hnd hnd']
    refine forall_congr' fun pk => ?_
    rw [Bool.eq_iff_iff, Odict.has_iff, Odict.has_iff]
  rw [hmem]
  constructor
  · intro h
    have hperm := List.mergeSort_perm (Odict.keys st.members) (· ≤ ·)
    have hperm' := List.mergeSort_perm (Odict.keys st'.members) (· ≤ ·)
    exact hperm.symm.trans ((List.Perm.of_eq h).trans hperm')
  · intro h
    refine List.Perm.eq_of_pairwise' (hsorted _) (hsorted _) ?_
    exact (List.mergeSort_perm _ _).trans (h.trans (List.mergeSort_perm _ _).symm)

end Hashed

/-! ## The states there are -/

/-- Made by `create`, and then any membership changes, returned or raised. -/
def Built (a : KeyAlg Bytes) (st : GroupState Bytes) : Prop :=
  ∃ groupId ms st₀ ops, GroupState.create a groupId ms = .ok st₀ ∧
    runFrom (callStep a) st₀ ops = st

/-- Seven nodes, and a root of 32 bytes if there is one. -/
structure RootSized (t : GroupTree Bytes) : Prop where
  shape : Shaped t
  root : ∀ root, t.rootSecret = some root → root.length = 32

section Built

variable {a : KeyAlg Bytes} {st st' : GroupState Bytes}

theorem setLeaf_rootSized (ha : IdealHash a) (l : Nat) (s : Bytes) :
    Keeps RootSized (GroupTree.setLeaf a l s) := by
  refine keeps_get_bind fun t ht => ?_
  rw [ite_run]
  split
  · refine recomputePath_keeps _ _ (fun parent t' left right _ h => ?_) _ ?_
    · refine ⟨h.shape.setNode _ _, fun root hroot => ?_⟩
      rw [GroupTree.rootSecret] at hroot
      by_cases hparent : parent = 0
      · rw [hparent, List.getElem?_set_self (by rw [h.shape.nodes]; omega)] at hroot
        cases hroot
        exact ha.rootLength left right
      · rw [List.getElem?_set_ne hparent] at hroot
        exact h.root root hroot
    · -- A leaf is not the root.
      have hleaf : t.leafNodeIndex l ≠ 0 := by
        rw [GroupTree.leafNodeIndex, ht.shape.offset]
        omega
      refine ⟨ht.shape.setNode _ _, fun root hroot => ht.root root ?_⟩
      rw [GroupTree.rootSecret, List.getElem?_set_ne hleaf] at hroot
      exact hroot
  · exact ht

theorem forMemberCount_rootSized (n : Nat) (t : GroupTree Bytes)
    (h : GroupTree.forMemberCount n = .ok t) : RootSized t := by
  refine ⟨forMemberCount_shaped n t h, fun root hroot => ?_⟩
  rw [GroupTree.forMemberCount] at h
  split at h
  · cases h
  · split at h
    · cases h
    · cases h
      cases hroot

theorem Built.named_rootSized (ha : IdealHash a) (h : Built a st) :
    Named st.members ∧ RootSized st.tree := by
  obtain ⟨groupId, ms, st₀, ops, h₀, rfl⟩ := h
  have hstart : Named st₀.members ∧ RootSized st₀.tree := by
    refine ⟨create_named h₀, ?_⟩
    rw [(create_scheduled h₀).1.tree]
    refine ⟨⟨rfl, rfl⟩, fun root hroot => ?_⟩
    cases hroot
    exact ha.rootLength _ _
  exact runFrom_invariant
    (I := fun st : GroupState Bytes => Named st.members ∧ RootSized st.tree)
    (fun st op h => ⟨callStep_named op h.1,
      callStep_kept (setLeaf_rootSized ha) forMemberCount_rootSized op h.2⟩)
    hstart ops

end Built

/-! ## Commitment -/

/-- States with one hash agree in everything that is hashed. -/
def Commits (a : KeyAlg Bytes) (st st' : GroupState Bytes) : Prop :=
  ∀ h h', st.computeGroupHash a = .ok h → st'.computeGroupHash a = .ok h' → h = h' →
    st.groupId = st'.groupId ∧ st.epoch = st'.epoch ∧
      (∀ pk, Odict.has st.members pk = Odict.has st'.members pk) ∧
      st.tree.rootSecret = st'.tree.rootSecret

/-- The manager has the hash of this state for its epoch. -/
def Recorded (a : KeyAlg Bytes) (manager : EpochManager Bytes) (st : GroupState Bytes) : Prop :=
  ∃ h, st.computeGroupHash a = .ok h ∧
    Odict.get? manager.history st.epoch = some ⟨st.epoch, h⟩

/-- Whoever has recorded the one state verifies the other only if it has the
same members. -/
def VerifiesMembers (a : KeyAlg Bytes) (st st' : GroupState Bytes) : Prop :=
  ∀ manager, Recorded a manager st → st'.epoch = st.epoch →
    manager.verifyState a st' = .ok true →
    ∀ pk, Odict.has st.members pk = Odict.has st'.members pk

/-- The two states are hashed as the same bytes, cut in different places. -/
def Ambiguous (st st' : GroupState Bytes) : Prop :=
  (st.epoch < 2 ^ 64 ∧ st'.epoch < 2 ^ 64) ∧ hashInput st = hashInput st' ∧
    ¬ (st.groupId.length = st'.groupId.length ∧
      (sortedIds st).map List.length = (sortedIds st').map List.length)

instance (st st' : GroupState Bytes) : Decidable (Ambiguous st st') :=
  inferInstanceAs (Decidable (_ ∧ _))

section Commitment

variable {a : KeyAlg Bytes} {st st' : GroupState Bytes}

/-- A record that returns stands under its epoch. -/
theorem record_recorded {manager manager' : EpochManager Bytes}
    (h : EpochManager.record a manager st = .ok manager') : Recorded a manager' st := by
  obtain ⟨gh, hgh, h⟩ := except_bind_ok h
  cases h
  exact ⟨gh, hgh, Odict.get?_set_self _ _ _⟩

/-- A record of another epoch leaves this one alone. -/
theorem Recorded.record {manager manager' : EpochManager Bytes} (hrec : Recorded a manager st)
    (h : EpochManager.record a manager st' = .ok manager') (hne : st.epoch ≠ st'.epoch) :
    Recorded a manager' st := by
  obtain ⟨gh, hgh, hget⟩ := hrec
  obtain ⟨gh', -, h⟩ := except_bind_ok h
  cases h
  exact ⟨gh, hgh, (Odict.get?_set_ne _ hne _).trans hget⟩

/-- No root is no bytes, and a root is 32 of them. -/
theorem rootSecret_of_bytes {root root' : Option Bytes}
    (hroot : ∀ s, root = some s → s.length = 32) (hroot' : ∀ s, root' = some s → s.length = 32)
    (h : root.getD [] = root'.getD []) : root = root' := by
  cases root with
  | none =>
      cases root' with
      | none => rfl
      | some s' =>
          have hlen := hroot' s' rfl
          rw [Option.getD_none, Option.getD_some] at h
          rw [← h] at hlen
          cases hlen
  | some s =>
      cases root' with
      | none =>
          have hlen := hroot s rfl
          rw [Option.getD_none, Option.getD_some] at h
          rw [h] at hlen
          cases hlen
      | some s' => exact congrArg some h

/-- Cut in the same places, the same bytes have the same parts. -/
theorem hashInput_parts (hroot : RootSized st.tree) (hroot' : RootSized st'.tree)
    (hepoch : st.epoch < 2 ^ 64) (hepoch' : st'.epoch < 2 ^ 64)
    (hinput : hashInput st = hashInput st') (hcuts : st.groupId.length = st'.groupId.length ∧
      (sortedIds st).map List.length = (sortedIds st').map List.length) :
    st.groupId = st'.groupId ∧ st.epoch = st'.epoch ∧ sortedIds st = sortedIds st' ∧
      st.tree.rootSecret = st'.tree.rootSecret := by
  obtain ⟨hgid, hids⟩ := hcuts
  obtain ⟨hgroupId, hrest⟩ := List.append_inj hinput hgid
  obtain ⟨hepochs, hrest⟩ := List.append_inj hrest rfl
  have hflat : (sortedIds st).flatten.length = (sortedIds st').flatten.length := by
    rw [List.length_flatten, List.length_flatten, hids]
  obtain ⟨hflatten, hroots⟩ := List.append_inj hrest hflat
  refine ⟨hgroupId, epochBytes_inj hepoch hepoch' hepochs,
    List.eq_iff_flatten_eq.mpr ⟨hflatten, hids⟩, ?_⟩
  exact rootSecret_of_bytes hroot.root hroot'.root hroots

theorem commits_iff (ha : IdealHash a) (hst : Built a st) (hst' : Built a st') :
    Commits a st st' ↔ ¬ Ambiguous st st' := by
  obtain ⟨hnamed, hroot⟩ := hst.named_rootSized ha
  obtain ⟨hnamed', hroot'⟩ := hst'.named_rootSized ha
  have hids := sortedIds_eq_iff hnamed.nodup hnamed'.nodup
  constructor
  · rintro hcommits ⟨⟨hepoch, hepoch'⟩, hinput, hcuts⟩
    obtain ⟨hgroupId, -, hmembers, -⟩ := hcommits _ _
      ((computeGroupHash_ok_iff ha).mpr ⟨hepoch, rfl⟩)
      ((computeGroupHash_ok_iff ha).mpr ⟨hepoch', rfl⟩) (by rw [hinput])
    exact hcuts ⟨by rw [hgroupId], by rw [hids.mpr hmembers]⟩
  · rintro hclear h h' hh hh' rfl
    obtain ⟨hepoch, hhash⟩ := (computeGroupHash_ok_iff ha).mp hh
    obtain ⟨hepoch', hhash'⟩ := (computeGroupHash_ok_iff ha).mp hh'
    have hinput : hashInput st = hashInput st' := ha.injective (hhash.trans hhash'.symm)
    have hcuts := not_not.mp fun hcuts => hclear ⟨⟨hepoch, hepoch'⟩, hinput, hcuts⟩
    obtain ⟨hgroupId, hepochs, hsame, hroots⟩ :=
      hashInput_parts hroot hroot' hepoch hepoch' hinput hcuts
    exact ⟨hgroupId, hepochs, hids.mp hsame, hroots⟩

theorem Commits.verifies (ha : IdealHash a) (h : Commits a st st') : VerifiesMembers a st st' := by
  rintro manager ⟨gh, hgh, hget⟩ hepoch hverify
  rw [EpochManager.verifyState, hepoch, hget] at hverify
  obtain ⟨gh', hgh', hsame⟩ := except_bind_ok hverify
  have hsame : a.bytes gh = a.bytes gh' := by simpa [pure, Except.pure] using hsame
  rw [ha.bytes, ha.bytes] at hsame
  exact (h gh gh' hgh hgh' hsame).2.2.1

/-- Group ids of one length and identities of one length leave no second cut,
where both trees have a root. -/
theorem not_ambiguous_of_lengths (ha : IdealHash a) (hst : Built a st) (hst' : Built a st')
    {n : Nat} (hn : 0 < n) (hgid : st.groupId.length = st'.groupId.length)
    (hids : ∀ pk ∈ sortedIds st, pk.length = n) (hids' : ∀ pk ∈ sortedIds st', pk.length = n)
    (hroot : st.tree.rootSecret.isSome) (hroot' : st'.tree.rootSecret.isSome) :
    ¬ Ambiguous st st' := by
  rintro ⟨-, hinput, hcuts⟩
  obtain ⟨s, hs⟩ := Option.isSome_iff_exists.mp hroot
  obtain ⟨s', hs'⟩ := Option.isSome_iff_exists.mp hroot'
  have hlen := (hst.named_rootSized ha).2.root s hs
  have hlen' := (hst'.named_rootSized ha).2.root s' hs'
  have hmap : ∀ ids : List Bytes, (∀ pk ∈ ids, pk.length = n) →
      ids.map List.length = List.replicate ids.length n := fun ids h =>
    List.eq_replicate_iff.mpr ⟨List.length_map _, fun l hl => by
      obtain ⟨pk, hpk, rfl⟩ := List.mem_map.mp hl
      exact h pk hpk⟩
  have hflat : ∀ ids : List Bytes, (∀ pk ∈ ids, pk.length = n) →
      ids.flatten.length = ids.length * n := fun ids h => by
    rw [List.length_flatten, hmap ids h, List.sum_replicate_nat]
  refine hcuts ⟨hgid, ?_⟩
  rw [hmap _ hids, hmap _ hids']
  -- The number of members follows from the length of the whole.
  have htotal := congrArg List.length hinput
  simp only [hashInput, rootBytes, hs, hs', Option.getD_some, List.length_append,
    epochBytes_length, hflat _ hids, hflat _ hids', hlen, hlen', hgid] at htotal
  have hcount : (sortedIds st).length = (sortedIds st').length :=
    Nat.eq_of_mul_eq_mul_right hn (by omega)
  rw [hcount]

/-- The hash commits two states to what is hashed, and a verified state has the
recorded members, exactly if the two are not the same bytes cut in different
places. -/
theorem group_hash_commits_iff (ha : IdealHash a) (hst : Built a st) (hst' : Built a st') :
    (Commits a st st' ∧ VerifiesMembers a st st') ↔ ¬ Ambiguous st st' := by
  rw [← commits_iff ha hst hst']
  exact ⟨fun h => h.1, fun h => ⟨h, h.verifies ha⟩⟩

end Commitment

/-- Bytes, with a group hash that is its input. -/
def plainHash : KeyAlg Bytes where
  bytes k := k
  lit b := b
  cat := (· ++ ·)
  hkdf ikm salt info block :=
    if info = ascii "ghostchat-group-hash" then ikm
    else mix (ikm ++ salt ++ info ++ [UInt8.ofNat block])

theorem plainHash_ideal : IdealHash plainHash where
  bytes := fun _ => rfl
  lit := fun _ => rfl
  cat := fun _ _ => rfl
  rootLength := by
    intro left right
    have hinfo : ascii s!"ghostchat-group-node:{0}" ≠ ascii "ghostchat-group-hash" := by decide
    rw [deriveInternalNodeSecret, plainHash]
    simp only [if_neg hinfo]
    exact mix_length _
  injective := by
    intro ikm ikm' h
    exact h

/-- Two members with these identities, and the same leaf secrets always. -/
def samplePair (first second : Bytes) : GroupState Bytes :=
  match GroupState.create plainHash [7] [(first, mix [1]), (second, mix [2])] with
  | .ok st => st
  | .error _ => ⟨[], 0, ⟨[], 0⟩, [], none, none, none⟩

theorem samplePair_left : Built plainHash (samplePair [1, 2] [3]) :=
  ⟨[7], [([1, 2], mix [1]), ([3], mix [2])], _, [], rfl, rfl⟩

theorem samplePair_right : Built plainHash (samplePair [1] [2, 3]) :=
  ⟨[7], [([1], mix [1]), ([2, 3], mix [2])], _, [], rfl, rfl⟩

theorem samplePair_other : Built plainHash (samplePair [1, 2] [4]) :=
  ⟨[7], [([1, 2], mix [1]), ([4], mix [2])], _, [], rfl, rfl⟩

theorem samplePair_sorted {first second : Bytes} (hle : first ≤ second)
    (hkeys : Odict.keys (samplePair first second).members = [first, second]) :
    sortedIds (samplePair first second) = [first, second] := by
  rw [sortedIds, hkeys]
  exact List.mergeSort_of_pairwise (by simp [hle])

/-- With another identity in the place of the second. -/
theorem group_hash_commits_other :
    Commits plainHash (samplePair [1, 2] [3]) (samplePair [1, 2] [4]) ∧
      VerifiesMembers plainHash (samplePair [1, 2] [3]) (samplePair [1, 2] [4]) := by
  have hsorted : sortedIds (samplePair [1, 2] [3]) = [[1, 2], [3]] :=
    samplePair_sorted (by decide) rfl
  have hsorted' : sortedIds (samplePair [1, 2] [4]) = [[1, 2], [4]] :=
    samplePair_sorted (by decide) rfl
  refine (group_hash_commits_iff plainHash_ideal samplePair_left samplePair_other).mpr ?_
  rintro ⟨-, -, hcuts⟩
  exact hcuts ⟨rfl, by rw [hsorted, hsorted']; rfl⟩

/-- One member's last byte is the other's first: the hashes are the same, and
who has recorded the one verifies the other. -/
theorem shifted_identities_verified :
    IdealHash plainHash ∧ Built plainHash (samplePair [1, 2] [3]) ∧
      Built plainHash (samplePair [1] [2, 3]) ∧
      ¬ Commits plainHash (samplePair [1, 2] [3]) (samplePair [1] [2, 3]) ∧
      ¬ VerifiesMembers plainHash (samplePair [1, 2] [3]) (samplePair [1] [2, 3]) := by
  have hsorted : sortedIds (samplePair [1, 2] [3]) = [[1, 2], [3]] :=
    samplePair_sorted (by decide) rfl
  have hsorted' : sortedIds (samplePair [1] [2, 3]) = [[1], [2, 3]] :=
    samplePair_sorted (by decide) rfl
  have hinput : hashInput (samplePair [1, 2] [3]) = hashInput (samplePair [1] [2, 3]) := by
    rw [hashInput, hashInput, hsorted, hsorted']
    rfl
  have hmembers : ¬ ∀ pk, Odict.has (samplePair [1, 2] [3]).members pk
      = Odict.has (samplePair [1] [2, 3]).members pk := fun h =>
    absurd (h [1]) (by decide +kernel)
  have hhash : (samplePair [1, 2] [3]).computeGroupHash plainHash
      = .ok (hashInput (samplePair [1, 2] [3])) :=
    (computeGroupHash_ok_iff plainHash_ideal).mpr ⟨by decide +kernel, rfl⟩
  have hhash' : (samplePair [1] [2, 3]).computeGroupHash plainHash
      = .ok (hashInput (samplePair [1, 2] [3])) :=
    (computeGroupHash_ok_iff plainHash_ideal).mpr ⟨by decide +kernel, hinput.symm⟩
  refine ⟨plainHash_ideal, samplePair_left, samplePair_right, fun h => ?_, fun h => ?_⟩
  · exact hmembers (h _ _ hhash hhash' rfl).2.2.1
  · have hepoch : (samplePair [1] [2, 3]).epoch = 1 := rfl
    refine hmembers (h ⟨[(1, ⟨1, _⟩)]⟩ ⟨_, hhash, rfl⟩ rfl ?_)
    rw [EpochManager.verifyState, hepoch, Odict.get?_singleton]
    simp only [hhash', except_ok_bind, decide_true]
    rfl

end GhostChat.Proofs
