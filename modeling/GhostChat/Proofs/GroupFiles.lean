import GhostChat.Lib.Parse
import GhostChat.Proofs.Leaves
import GhostChat.Ref.GroupFiles
import GhostChat.Ref.GroupVerification

/-!
# A stored group is the group

The dict has the members in order, the secrets of all nodes and what is
derived from them. The reader makes the map of members anew, under the name
each member has in the dict, so it takes the writer's own invariants to get
the same map: a member is in the map under its own identity, and no two are
under one.

Everything later calls read is in the state, and the state is the same one.
-/

namespace GhostChat.Proofs

open GhostChat.Lib GhostChat.Lib.Effect GhostChat.Ref

/-! ## The map of members -/

section Named

variable {K : Type} {a : KeyAlg K} {st : GroupState K} {members : Odict Bytes GroupMember}

/-- Each member is in the map once, under its own identity. -/
structure Named (members : Odict Bytes GroupMember) : Prop where
  own : ∀ e ∈ members, e.2.identityPk = e.1
  nodup : (Odict.keys members).Nodup

theorem Named.set (h : Named members) (m : GroupMember) :
    Named (Odict.set members m.identityPk m) where
  own := by
    intro e he
    rcases Odict.mem_set he with rfl | he
    · rfl
    · exact h.own e he.1
  nodup := Odict.set_keys_nodup h.nodup _ _

theorem Named.erase (h : Named members) (pk : Bytes) : Named (Odict.erase members pk) where
  own := fun e he => h.own e (Odict.mem_erase.mp he).1
  nodup := (List.filter_sublist.map _).nodup h.nodup

theorem placeMembers_named {ms : List ((Bytes × K) × Nat)} {t t' : GroupTree K}
    {members' : Odict Bytes GroupMember} (hnamed : Named members)
    (h : GroupState.placeMembers a ms (t, members) = .ok (t', members')) : Named members' := by
  induction ms generalizing t members with
  | nil =>
      cases h
      exact hnamed
  | cons m ms ih =>
      obtain ⟨⟨pk, secret⟩, idx⟩ := m
      rw [GroupState.placeMembers] at h
      split at h
      · cases h
      · obtain ⟨t₁, -, h⟩ := except_bind_ok h
        exact ih (hnamed.set ⟨pk, idx⟩) h

theorem create_named {groupId : Bytes} {ms : List (Bytes × K)}
    (h : GroupState.create a groupId ms = .ok st) : Named st.members := by
  obtain ⟨t, t', hplaced⟩ := create_placed h
  exact placeMembers_named ⟨by simp, by simp [Odict.keys]⟩ hplaced

/-- However a call ends. -/
theorem callStep_named (op : GroupOp K) (hnamed : Named st.members) :
    Named (callStep a st op).members := by
  -- Of the tree nothing is asked.
  have hset : ∀ l s, Keeps (fun _ => True) (GroupTree.setLeaf a l s) := fun _ _ _ _ => trivial
  cases op with
  | add pk s =>
      cases hnew : Odict.has st.members pk with
      | true =>
          rw [callStep, GroupState.call]
          simpa [GroupState.addMember, hnew] using hnamed
      | false =>
          rw [callStep, GroupState.call,
            (addMember_mapKept hset (fun _ _ _ => trivial) trivial hnew s).1,
            ← Odict.set_of_not_has hnew]
          exact hnamed.set ⟨pk, st.members.length⟩
  | remove pk s =>
      rw [callStep, GroupState.call, (removeMember_mapKept hset trivial pk s).1]
      exact hnamed.erase pk

theorem call_named {op : GroupOp K} {u : Unit} {st' : GroupState K} (hnamed : Named st.members)
    (h : st.call a op = .ok u st') : Named st'.members := by
  have hafter : callStep a st op = st' := by rw [callStep, h]; rfl
  rw [← hafter]
  exact callStep_named op hnamed

/-- What each call that returns keeps holds in every state of a run. -/
theorem states_keep {I : GroupState K → Prop}
    (hcall : ∀ st op st', I st → st.call a op = .ok () st' → I st') {ops : List (GroupOp K)}
    {sts : List (GroupState K)} (hst : I st) (h : GroupState.states a st ops = .ok sts) :
    ∀ st' ∈ sts, I st' := by
  induction ops generalizing st sts with
  | nil =>
      cases h
      intro st' hst'
      rw [List.mem_singleton.mp hst']
      exact hst
  | cons op ops ih =>
      rw [GroupState.states] at h
      cases hop : st.call a op with
      | error e st₁ => rw [hop] at h; cases h
      | ok u st₁ =>
          rw [hop] at h
          obtain ⟨rest, hrest, h⟩ := except_bind_ok h
          cases h
          intro st' hst'
          rcases List.mem_cons.mp hst' with rfl | hst'
          · exact hst
          · exact ih (hcall st op st₁ hst hop) hrest st' hst'

/-- What the file of a group relies on. -/
structure FileReady (a : KeyAlg K) (st : GroupState K) : Prop where
  scheduled : ∃ raw, Scheduled a raw st
  named : Named st.members
  epoch : 1 ≤ st.epoch

theorem create_fileReady {groupId : Bytes} {ms : List (Bytes × K)}
    (h : GroupState.create a groupId ms = .ok st) : FileReady a st where
  scheduled := ⟨_, (create_scheduled h).1⟩
  named := create_named h
  epoch := by rw [(create_scheduled h).2.2.1]; exact Nat.le_refl 1

theorem call_fileReady {op : GroupOp K} {st' : GroupState K} (h : FileReady a st)
    (hcall : st.call a op = .ok () st') : FileReady a st' := by
  obtain ⟨raw, hraw⟩ := h.scheduled
  obtain ⟨l, -, -, hnext, -, hepoch⟩ := call_ok hraw hcall
  exact ⟨⟨_, hnext⟩, call_named h.named hcall, by rw [hepoch]; omega⟩

end Named

/-! ## Reading what was written -/

section Written

variable {st : GroupState Bytes}

theorem readMember_stored (e : Bytes × GroupMember) :
    readMember (storedMember e) = .ok ⟨e.1, e.2.leafIndex⟩ := by
  simp [readMember, storedMember, Json.subscript, Odict.get?, b64uDecode, Json.toInt]

theorem readSecret_stored (s : Option Bytes) : readSecret (storedSecret s) = .ok s := by
  cases s with
  | none => rfl
  | some s => simp [readSecret, storedSecret, b64uDecode]

theorem readMembers_stored {members : Odict Bytes GroupMember} (h : Named members) :
    readMembers (.list (members.map storedMember))
      = .ok (members.map fun e => (e.1, ⟨e.2.identityPk, e.2.leafIndex⟩)) := by
  refine foldlM_ok_iff.mpr ⟨members.map fun e => ⟨e.1, e.2.leafIndex⟩, ?_, ?_⟩
  · rw [List.forall₂_map_left_iff, List.forall₂_map_right_iff]
    exact List.forall₂_same.mpr fun e _ => readMember_stored e
  · have hfresh : (Odict.keys ([] : Odict Bytes RestoredMember) ++
        (members.map fun e => (⟨e.1, e.2.leafIndex⟩ : RestoredMember)).map
          (·.identityPk)).Nodup := by
      rw [List.map_map]
      exact h.nodup
    refine (Odict.foldl_set _ id _ _ hfresh).trans ?_
    rw [List.nil_append, List.map_map]
    refine List.map_congr_left fun e he => ?_
    simp only [Function.comp, id, h.own e he]

theorem readNodeSecrets_stored (secrets : List (Option Bytes)) :
    readNodeSecrets (.list (secrets.map storedSecret)) = .ok secrets := by
  refine mapM_ok_iff.mpr ?_
  rw [List.forall₂_map_left_iff]
  exact List.forall₂_same.mpr fun s _ => readSecret_stored s

theorem validateSerialized_stored (hepoch : 1 ≤ st.epoch) :
    validateSerialized (serializeGroupState st) = .ok [] := by
  have hlow : ¬ (st.epoch : Int) < 1 := by omega
  have hepochs : epochErrors (serializeGroupState st) = .ok [] := by
    simp [epochErrors, serializeGroupState, Odict.get?, Json.toInt, hlow]
  rw [validateSerialized, hepochs]
  rfl

/-- The dict of a group is read back field by field. -/
theorem deserialize_serialize (hnamed : Named st.members) (hepoch : 1 ≤ st.epoch) :
    deserializeGroupState (serializeGroupState st) = .ok st.restored := by
  have hdec : ∀ b, b64uDecode (.str (b64Encode b)) = .ok b := by simp [b64uDecode]
  have hitems : Json.item (serializeGroupState st) "members" >>= readMembers
      = .ok st.restored.members := readMembers_stored hnamed
  have hnodes : Json.item (serializeGroupState st) "node_secrets" >>= readNodeSecrets
      = .ok st.tree.nodeSecrets := readNodeSecrets_stored _
  rw [deserializeGroupState, validateSerialized_stored hepoch, except_ok_bind]
  simp only [hitems, hnodes]
  simp [serializeGroupState, Json.item, Odict.get?, hdec, Json.toInt, GroupState.restored]

/-- What is read is the state itself, where its secrets are there. -/
theorem restored_live {es key h : Bytes} (hsecret : st.groupSecret = some es)
    (hkey : st.applicationKey = some key) (hhash : st.groupHash = some h) :
    st.restored.live = st := by
  obtain ⟨groupId, epoch, tree, members, groupSecret, applicationKey, groupHash⟩ := st
  cases hsecret
  cases hkey
  cases hhash
  simp [RestoredGroup.live, GroupState.restored, Function.comp_def]

/-- The state of a replica, stored and read back, is the same state, and every
sequence of membership changes and messages has the same outcomes from it. -/
theorem stored_group_survives {P : Type} {c : Crypto Bytes P Bytes} {groupId : Bytes}
    {ms : List (Bytes × Bytes)} {st₀ : GroupState Bytes} {ops : List (GroupOp Bytes)}
    {sts : List (GroupState Bytes)} (h₀ : GroupState.create c.toKeyAlg groupId ms = .ok st₀)
    (h : GroupState.states c.toKeyAlg st₀ ops = .ok sts) (hst : st ∈ sts) :
    deserializeGroupState (serializeGroupState st) = .ok st.restored ∧
      st.restored.live = st ∧
      ∀ messenger uses, GroupUse.outcomes c (st.restored.live, messenger) uses
        = GroupUse.outcomes c (st, messenger) uses := by
  have hready : FileReady c.toKeyAlg st :=
    states_keep (fun _ _ _ => call_fileReady) (create_fileReady h₀) h st hst
  obtain ⟨raw, hsched⟩ := hready.scheduled
  obtain ⟨es, -, hsecret, hkey⟩ := hsched.secret
  obtain ⟨gh, -, hhash⟩ := hsched.hash
  have hlive : st.restored.live = st := restored_live hsecret hkey hhash
  exact ⟨deserialize_serialize hready.named hready.epoch, hlive, fun messenger uses => by
    rw [hlive]⟩

end Written

/-- The first of three leaves and a fourth comes; the third goes on talking. -/
theorem stored_group_survives_rejoin :
    ∃ sts st, GroupState.states sampleCrypto.toKeyAlg sampleTrio
        [.remove [1] (mix [4]), .add [4] (mix [5])] = .ok sts ∧ sts[2]? = some st ∧
      deserializeGroupState (serializeGroupState st) = .ok st.restored ∧
      GroupUse.outcomes sampleCrypto (st.restored.live, ⟨2, 0, {}⟩) [.encrypt [104, 105] []]
        = GroupUse.outcomes sampleCrypto (st, ⟨2, 0, {}⟩) [.encrypt [104, 105] []] := by
  have hreached : ((GroupState.states sampleCrypto.toKeyAlg sampleTrio
      [.remove [1] (mix [4]), .add [4] (mix [5])]).toOption.bind (·[2]?)).isSome = true := by
    decide +kernel
  cases hsts : GroupState.states sampleCrypto.toKeyAlg sampleTrio
      [.remove [1] (mix [4]), .add [4] (mix [5])] with
  | error e => rw [hsts] at hreached; cases hreached
  | ok sts =>
      rw [hsts] at hreached
      obtain ⟨st, hst⟩ := Option.isSome_iff_exists.mp hreached
      obtain ⟨hread, -, hsame⟩ :=
        stored_group_survives sampleTrio_created hsts (List.mem_of_getElem? hst)
      exact ⟨sts, st, rfl, hst, hread, hsame _ _⟩

end GhostChat.Proofs
