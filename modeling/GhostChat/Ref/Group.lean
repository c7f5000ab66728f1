import GhostChat.Lib.Effect
import GhostChat.Lib.Odict
import GhostChat.Lib.Run
import GhostChat.Ref.Kdf

/-!
# Groups (group/group_state.py, group/key_schedule.py)

A group is a full binary tree of secrets in an array, a map of members to
leaves, and what is derived from the root: epoch secret, application key,
group hash. Every membership change writes one leaf, recomputes the path above
it and moves to the next epoch.

`add_member` and `remove_member` work on the live state, so they are calls
that keep what they wrote when they raise. `add_member` has the new member in
the map before it finds out that the tree is full.

Leaf secrets are handed in; everything else is HKDF over them.
-/

namespace GhostChat.Ref

open GhostChat.Lib GhostChat.Lib.Effect

variable {K : Type}

/-! ## Key schedule -/

def deriveLeafNodeSecret (a : KeyAlg K) (leafSecret : K) (leafIndex : Nat) : K :=
  a.hkdf leafSecret (a.lit (ascii "ghostchat-group-leaf"))
    (ascii s!"ghostchat-group-leaf:{leafIndex}") 0

def deriveInternalNodeSecret (a : KeyAlg K) (left right : K) (nodeIndex : Nat) : K :=
  a.hkdf (a.cat left right) (a.lit (ascii "ghostchat-group-tree"))
    (ascii s!"ghostchat-group-node:{nodeIndex}") 0

/-- Raises when the epoch does not fit eight bytes. -/
def deriveEpochSecret (a : KeyAlg K) (rootSecret : K) (epoch : Nat) (groupId : Bytes) :
    Except Exn K := do
  let e ← toBytesBig epoch 8
  return a.hkdf rootSecret (a.lit groupId) (ascii "ghostchat-epoch-secret:" ++ e) 0

def deriveApplicationKey (a : KeyAlg K) (epochSecret : K) : K :=
  a.hkdf epochSecret (a.lit (ascii "ghostchat-app-key-salt")) (ascii "ghostchat-app-key") 0

def deriveGroupHash (a : KeyAlg K) (groupId : Bytes) (epoch : Nat) (memberIds : List Bytes)
    (rootSecret : K) : Except Exn K := do
  let e ← toBytesBig epoch 8
  let payload := groupId ++ e ++ (memberIds.mergeSort (· ≤ ·)).flatten
  return a.hkdf (a.cat (a.lit payload) rootSecret) (a.lit (ascii "ghostchat-group-hash-salt"))
    (ascii "ghostchat-group-hash") 0

/-! ## `GroupTree` -/

structure GroupTree (K : Type) where
  nodeSecrets : List (Option K)
  leafOffset : Nat
  deriving DecidableEq

def GroupTree.forMemberCount (memberCount : Nat) : Except Exn (GroupTree K) :=
  if memberCount ≤ 0 then .error (.valueError "member_count must be positive")
  else if memberCount > 4 then
    .error (.valueError "Prototype group size limit is 4 members")
  else
    let leaves := 4
    .ok { nodeSecrets := List.replicate (2 * leaves - 1) none, leafOffset := leaves - 1 }

def GroupTree.leafNodeIndex (t : GroupTree K) (leafIndex : Nat) : Nat :=
  t.leafOffset + leafIndex

def GroupTree.parentIndex (idx : Nat) : Option Nat :=
  if idx = 0 then none else some ((idx - 1) / 2)

/-- The loop of `_recompute_path` from the parent of `idx` on, at most `fuel`
times; `idx` rounds are more than there are ancestors. -/
def GroupTree.recomputePath (a : KeyAlg K) : (fuel idx : Nat) → EStateM Exn (GroupTree K) Unit
  | 0, _ => pure ()
  | fuel + 1, idx =>
      match GroupTree.parentIndex idx with
      | none => pure ()
      | some parent => do
          let t ← get
          match t.nodeSecrets[2 * parent + 1]?, t.nodeSecrets[2 * parent + 2]? with
          | some (some left), some (some right) => do
              modify fun t => { t with
                nodeSecrets := t.nodeSecrets.set parent
                  (some (deriveInternalNodeSecret a left right parent)) }
              GroupTree.recomputePath a fuel parent
          -- Tree might be partially populated; stop here.
          | some _, some _ => pure ()
          | _, _ => throw (.indexError "list index out of range")

def GroupTree.setLeaf (a : KeyAlg K) (leafIndex : Nat) (secret : K) :
    EStateM Exn (GroupTree K) Unit := do
  let t ← get
  let nodeIdx := t.leafNodeIndex leafIndex
  if nodeIdx < t.nodeSecrets.length then do
    modify fun t => { t with
      nodeSecrets := t.nodeSecrets.set nodeIdx
        (some (deriveLeafNodeSecret a secret leafIndex)) }
    GroupTree.recomputePath a nodeIdx nodeIdx
  else throw (.indexError "list assignment index out of range")

def GroupTree.rootSecret (t : GroupTree K) : Option K := (t.nodeSecrets[0]?).join

/-! ## `GroupState` -/

structure GroupMember where
  identityPk : Bytes
  leafIndex : Nat
  deriving DecidableEq, Repr

structure GroupState (K : Type) where
  groupId : Bytes
  epoch : Nat
  tree : GroupTree K
  members : Odict Bytes GroupMember
  groupSecret : Option K
  applicationKey : Option K
  groupHash : Option K
  deriving DecidableEq

def initialEpoch : Nat := 1

/-- What a call on the tree leaves, or its exception. -/
def onFreshTree (t : GroupTree K) (x : EStateM Exn (GroupTree K) Unit) :
    Except Exn (GroupTree K) :=
  match x t with
  | .ok _ t' => .ok t'
  | .error e _ => .error e

/-- The loop over `initial_members`. -/
def GroupState.placeMembers (a : KeyAlg K) : List ((Bytes × K) × Nat) →
    GroupTree K × Odict Bytes GroupMember →
    Except Exn (GroupTree K × Odict Bytes GroupMember)
  | [], acc => .ok acc
  | ((identityPk, leafSecret), idx) :: rest, (tree, members) =>
      if Odict.has members identityPk then
        .error (.valueError "Duplicate member in initial_members")
      else do
        let tree ← onFreshTree tree (GroupTree.setLeaf a idx leafSecret)
        GroupState.placeMembers a rest
          (tree, Odict.set members identityPk { identityPk := identityPk, leafIndex := idx })

/-- The secret put in a leaf nobody has: it depends on the group id alone. -/
def paddingSecret (a : KeyAlg K) (groupId : Bytes) (padIdx : Nat) : K :=
  a.hkdf (a.lit groupId) (a.lit (ascii "ghostchat-group-padding"))
    (ascii s!"padding-{padIdx}") 0

/-- The loop that fills the other leaves. -/
def GroupState.placePadding (a : KeyAlg K) (groupId : Bytes) :
    List Nat → GroupTree K → Except Exn (GroupTree K)
  | [], tree => .ok tree
  | padIdx :: rest, tree => do
      let tree ← onFreshTree tree
        (GroupTree.setLeaf a padIdx (paddingSecret a groupId padIdx))
      GroupState.placePadding a groupId rest tree

def GroupState.create (a : KeyAlg K) (groupId : Bytes) (initialMembers : List (Bytes × K)) :
    Except Exn (GroupState K) :=
  if groupId.isEmpty then .error (.valueError "group_id must be non-empty")
  else if initialMembers.isEmpty then
    .error (.valueError "initial_members must be non-empty")
  else do
    let memberCount := initialMembers.length
    let tree ← GroupTree.forMemberCount memberCount
    let placed ← GroupState.placeMembers a initialMembers.zipIdx (tree, [])
    let totalLeaves := (placed.1.nodeSecrets.length + 1) / 2
    let tree ← GroupState.placePadding a groupId
      (List.range' memberCount (totalLeaves - memberCount)) placed.1
    match tree.rootSecret with
    | none => .error (.valueError "Tree root_secret not initialized")
    | some root => do
        let epochSecret ← deriveEpochSecret a root initialEpoch groupId
        let groupHash ← deriveGroupHash a groupId initialEpoch (Odict.keys placed.2) root
        return {
          groupId := groupId
          epoch := initialEpoch
          tree := tree
          members := placed.2
          groupSecret := some epochSecret
          applicationKey := some (deriveApplicationKey a epochSecret)
          groupHash := some groupHash }

/-- `_rederive_group_secret`. -/
def GroupState.rederiveGroupSecret (a : KeyAlg K) : EStateM Exn (GroupState K) Unit := do
  let st ← get
  match st.tree.rootSecret with
  | none => throw (.valueError "Tree root_secret not initialized")
  | some root => do
      let epochSecret ← lift (deriveEpochSecret a root st.epoch st.groupId)
      modify fun st => { st with
        groupSecret := some epochSecret
        applicationKey := some (deriveApplicationKey a epochSecret) }
      let groupHash ← lift (deriveGroupHash a st.groupId st.epoch (Odict.keys st.members) root)
      modify fun st => { st with groupHash := some groupHash }

/-- Run a method of the tree on the group's tree. -/
def onTree (x : EStateM Exn (GroupTree K) Unit) : EStateM Exn (GroupState K) Unit :=
  zoom (·.tree) (fun t st => { st with tree := t }) x

/-- `self.group_secret or b"\x00" * 32`. -/
def groupSecretOrZeros (a : KeyAlg K) : Option K → K
  | none => a.lit (List.replicate 32 0)
  | some s => if (a.bytes s).isEmpty then a.lit (List.replicate 32 0) else s

/-- The leaf an old member gets in a larger tree, from the last epoch's
secret. -/
def rekeySecret (a : KeyAlg K) (groupSecret : Option K) (leafIndex : Nat) : K :=
  a.hkdf (groupSecretOrZeros a groupSecret) (a.lit (ascii "ghostchat-group-rekey"))
    (ascii s!"member-{leafIndex}") 0

/-- The loop that repopulates a larger tree. -/
def GroupState.rekeyLeaves (a : KeyAlg K) (groupSecret : Option K) :
    List GroupMember → GroupTree K → Except Exn (GroupTree K)
  | [], tree => .ok tree
  | m :: rest, tree => do
      let tree ← onFreshTree tree
        (GroupTree.setLeaf a m.leafIndex (rekeySecret a groupSecret m.leafIndex))
      GroupState.rekeyLeaves a groupSecret rest tree

/-- The branch of `add_member` for a tree with no leaf left. -/
def GroupState.rebuildTree (a : KeyAlg K) (newIndex : Nat) :
    EStateM Exn (GroupState K) Unit := do
  let st ← get
  let oldMembers := (st.members.map (·.2)).filter (·.leafIndex < newIndex)
  let newTree ← lift (GroupTree.forMemberCount (oldMembers.length + 1))
  let newTree ← lift (GroupState.rekeyLeaves a st.groupSecret oldMembers newTree)
  modify fun st => { st with tree := newTree }

def GroupState.addMember (a : KeyAlg K) (identityPk : Bytes) (leafSecret : K) :
    EStateM Exn (GroupState K) Unit := do
  let st ← get
  if Odict.has st.members identityPk then throw (.valueError "Member already in group")
  let newIndex := st.members.length
  modify fun st => { st with
    members := Odict.set st.members identityPk
      { identityPk := identityPk, leafIndex := newIndex } }
  if newIndex ≥ (st.tree.nodeSecrets.length + 1) / 2 then
    GroupState.rebuildTree a newIndex
  onTree (GroupTree.setLeaf a newIndex leafSecret)
  modify fun st => { st with epoch := st.epoch + 1 }
  GroupState.rederiveGroupSecret a

def GroupState.removeMember (a : KeyAlg K) (identityPk : Bytes) (replacementSecret : K) :
    EStateM Exn (GroupState K) Unit := do
  let st ← get
  match Odict.get? st.members identityPk with
  | none => throw (.valueError "Member not in group")
  | some member => do
      modify fun st => { st with members := Odict.erase st.members identityPk }
      onTree (GroupTree.setLeaf a member.leafIndex replacementSecret)
      modify fun st => { st with epoch := st.epoch + 1 }
      GroupState.rederiveGroupSecret a

/-! ## Checking a state -/

/-- `compute_group_hash`. -/
def GroupState.computeGroupHash (a : KeyAlg K) (st : GroupState K) : Except Exn K := do
  let e ← toBytesBig st.epoch 8
  let payload := st.groupId ++ e ++ ((Odict.keys st.members).mergeSort (· ≤ ·)).flatten
  let ikm := match st.tree.rootSecret with
    | none => a.lit payload
    | some root => a.cat (a.lit payload) root
  return a.hkdf ikm (a.lit (ascii "ghostchat-group-hash-salt")) (ascii "ghostchat-group-hash") 0

def duplicateLeafError (leafIndex : Nat) : String := s!"duplicate leaf_index {leafIndex}"

/-- The loop over the members with the set of indexes it has seen. -/
def duplicateErrors : (seenIndexes : List Nat) → List GroupMember → List String
  | _, [] => []
  | seenIndexes, m :: rest =>
      (if m.leafIndex ∈ seenIndexes then [duplicateLeafError m.leafIndex] else [])
        ++ duplicateErrors (m.leafIndex :: seenIndexes) rest

/-- What `validate` says of `group_hash`; the hash is computed only where
there is one to compare. -/
def groupHashErrors (a : KeyAlg K) (st : GroupState K) : Except Exn (List String) :=
  match st.groupHash with
  | none => .ok ["group_hash not set"]
  | some h => do
      let computed ← st.computeGroupHash a
      return if a.bytes h ≠ a.bytes computed then ["group_hash does not match computed"] else []

def GroupState.validate (a : KeyAlg K) (st : GroupState K) : Except Exn (List String) := do
  let hashErrors ← groupHashErrors a st
  return (if st.groupId.isEmpty then ["group_id is empty"] else [])
    ++ (if st.epoch < initialEpoch then ["epoch is below initial"] else [])
    ++ (if st.members.isEmpty then ["no members"] else [])
    ++ (if st.tree.rootSecret.isNone then ["tree root_secret not set"] else [])
    ++ (if st.applicationKey.isNone then ["application_key not set"] else [])
    ++ hashErrors
    ++ duplicateErrors [] (st.members.map (·.2))

/-! ## A group over time -/

/-- A membership change, with the secret handed in for the leaf. -/
inductive GroupOp (K : Type) where
  | add (identityPk : Bytes) (leafSecret : K)
  | remove (identityPk : Bytes) (replacementSecret : K)

def GroupOp.secret : GroupOp K → K
  | .add _ s => s
  | .remove _ s => s

def GroupState.call (a : KeyAlg K) (st : GroupState K) : GroupOp K →
    EStateM.Result Exn (GroupState K) Unit
  | .add identityPk leafSecret => GroupState.addMember a identityPk leafSecret st
  | .remove identityPk replacementSecret =>
      GroupState.removeMember a identityPk replacementSecret st

end GhostChat.Ref
