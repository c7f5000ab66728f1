import GhostChat.Ref.Group
import GhostChat.Ref.MessageApi
import GhostChat.Ref.Prekey

/-!
# Stored groups (group/serialization.py, group/state_verification.py)

A group is stored as a dict of its fields. Reading one back is a look at which
fields are there, and then the decoders: whatever the dict says of epochs,
leaves and secrets is what the state has. A leaf index or a leaf offset may
then be negative, which no group that was made by `create` has, so what is
read is a type of its own here.

Keys are stored, so they are bytes.
-/

namespace GhostChat.Ref

open GhostChat.Lib GhostChat.Lib.Effect

/-! ## Writing -/

/-- `b64u_encode(s) if s is not None else None`. -/
def storedSecret : Option Bytes → Json
  | some s => .str (b64Encode s)
  | none => .null

def storedMember (e : Bytes × GroupMember) : Json := .dict [
  ("identity_pk", .str (b64Encode e.1)),
  ("leaf_index", .int e.2.leafIndex)]

def serializeGroupState (state : GroupState Bytes) : List (String × Json) := [
  ("group_id", .str (b64Encode state.groupId)),
  ("epoch", .int state.epoch),
  ("members", .list (state.members.map storedMember)),
  ("group_secret", .str (b64Encode (state.groupSecret.getD []))),
  ("application_key", .str (b64Encode (state.applicationKey.getD []))),
  ("group_hash", .str (b64Encode (state.groupHash.getD []))),
  ("node_secrets", .list (state.tree.nodeSecrets.map storedSecret)),
  ("leaf_offset", .int state.tree.leafOffset)]

/-! ## Checking a dict -/

def requiredGroupFields : List String :=
  ["group_id", "epoch", "members", "group_secret", "application_key", "group_hash",
   "node_secrets", "leaf_offset"]

/-- What `validate_serialized` says of the epoch. -/
def epochErrors (data : List (String × Json)) : Except Exn (List String) :=
  match Odict.get? data "epoch" with
  | none => .ok []
  | some v =>
      match v.toInt with
      | .ok e => .ok (if e < 1 then ["epoch must be >= 1"] else [])
      | .error (.typeError _) | .error (.valueError _) => .ok ["invalid epoch"]
      | .error e => .error e

/-- What it says of the members. -/
def memberErrors (data : List (String × Json)) : List String :=
  match Odict.get? data "members" with
  | none => []
  | some (.list _) => []
  | some _ => ["members must be a list"]

/-- `validate_serialized`: its errors. -/
def validateSerialized (data : List (String × Json)) : Except Exn (List String) := do
  let missing := (requiredGroupFields.filter fun key => !Odict.has data key).map
    ("missing field: " ++ ·)
  let epoch ← epochErrors data
  return missing ++ epoch ++ memberErrors data

/-! ## Reading -/

structure RestoredMember where
  identityPk : Bytes
  leafIndex : Int
  deriving DecidableEq, Repr

/-- What `deserialize_group_state` returns. -/
structure RestoredGroup where
  groupId : Bytes
  epoch : Int
  nodeSecrets : List (Option Bytes)
  leafOffset : Int
  members : Odict Bytes RestoredMember
  groupSecret : Bytes
  applicationKey : Bytes
  groupHash : Bytes
  deriving DecidableEq, Repr

def readMember (m : Json) : Except Exn RestoredMember := do
  let identityPk ← m.subscript "identity_pk" >>= b64uDecode
  let leafIndex ← m.subscript "leaf_index" >>= Json.toInt
  return { identityPk := identityPk, leafIndex := leafIndex }

/-- `b64u_decode(s) if isinstance(s, str) else None`. -/
def readSecret : Json → Except Exn (Option Bytes)
  | .str s => some <$> b64uDecode (.str s)
  | _ => .ok none

/-- `members_dict[identity_pk] = ...`. -/
def enterMember (members : Odict Bytes RestoredMember) (m : RestoredMember) :
    Odict Bytes RestoredMember := Odict.set members m.identityPk m

/-- The loop over the members. -/
def readMembers (data : Json) : Except Exn (Odict Bytes RestoredMember) := do
  let items ← data.iterate
  items.foldlM (fun members m => do
    let member ← readMember m
    return enterMember members member) []

def readNodeSecrets (data : Json) : Except Exn (List (Option Bytes)) := do
  let items ← data.iterate
  items.mapM readSecret

/-- `deserialize_group_state`. -/
def deserializeGroupState (data : List (String × Json)) : Except Exn RestoredGroup := do
  let errors ← validateSerialized data
  if errors ≠ [] then throw (.invalidGroupState ("; ".intercalate errors))
  let groupId ← Json.item data "group_id" >>= b64uDecode
  let epoch ← Json.item data "epoch" >>= Json.toInt
  let members ← Json.item data "members" >>= readMembers
  let nodeSecrets ← Json.item data "node_secrets" >>= readNodeSecrets
  let leafOffset ← Json.item data "leaf_offset" >>= Json.toInt
  let groupSecret ← Json.item data "group_secret" >>= b64uDecode
  let applicationKey ← Json.item data "application_key" >>= b64uDecode
  let groupHash ← Json.item data "group_hash" >>= b64uDecode
  return {
    groupId := groupId
    epoch := epoch
    nodeSecrets := nodeSecrets
    leafOffset := leafOffset
    members := members
    groupSecret := groupSecret
    applicationKey := applicationKey
    groupHash := groupHash }

/-! ## What was read, as a group -/

namespace RestoredGroup

/-- `tree.root_secret`. -/
def rootSecret (r : RestoredGroup) : Except Exn (Option Bytes) :=
  match r.nodeSecrets with
  | [] => .error (.indexError "list index out of range")
  | root :: _ => .ok root

/-- `compute_group_hash`. -/
def computeGroupHash (a : KeyAlg Bytes) (r : RestoredGroup) : Except Exn Bytes := do
  let e ← intToBytesBig r.epoch 8
  let payload := r.groupId ++ e ++ ((Odict.keys r.members).mergeSort (· ≤ ·)).flatten
  let root ← r.rootSecret
  let ikm := match root with
    | none => a.lit payload
    | some root => a.cat (a.lit payload) root
  return a.hkdf ikm (a.lit (ascii "ghostchat-group-hash-salt")) (ascii "ghostchat-group-hash") 0

/-- The loop over the members with the set of indexes it has seen. -/
def duplicateErrors : (seenIndexes : List Int) → List RestoredMember → List String
  | _, [] => []
  | seenIndexes, m :: rest =>
      (if m.leafIndex ∈ seenIndexes then [s!"duplicate leaf_index {m.leafIndex}"] else [])
        ++ duplicateErrors (m.leafIndex :: seenIndexes) rest

/-- `validate`. The keys are there. -/
def validate (a : KeyAlg Bytes) (r : RestoredGroup) : Except Exn (List String) := do
  let root ← r.rootSecret
  let computed ← r.computeGroupHash a
  return (if r.groupId.isEmpty then ["group_id is empty"] else [])
    ++ (if r.epoch < initialEpoch then ["epoch is below initial"] else [])
    ++ (if r.members.isEmpty then ["no members"] else [])
    ++ (if root.isNone then ["tree root_secret not set"] else [])
    ++ (if a.bytes r.groupHash ≠ a.bytes computed then ["group_hash does not match computed"]
        else [])
    ++ duplicateErrors [] (r.members.map (·.2))

/-- The state that membership changes and messages work on. It is what was
read where no index is negative. -/
def live (r : RestoredGroup) : GroupState Bytes where
  groupId := r.groupId
  epoch := r.epoch.toNat
  tree := { nodeSecrets := r.nodeSecrets, leafOffset := r.leafOffset.toNat }
  members := r.members.map fun e => (e.1, ⟨e.2.identityPk, e.2.leafIndex.toNat⟩)
  groupSecret := some r.groupSecret
  applicationKey := some r.applicationKey
  groupHash := some r.groupHash

end RestoredGroup

/-- The same state, as one that is read. -/
def GroupState.restored (st : GroupState Bytes) : RestoredGroup where
  groupId := st.groupId
  epoch := st.epoch
  nodeSecrets := st.tree.nodeSecrets
  leafOffset := st.tree.leafOffset
  members := st.members.map fun e => (e.1, ⟨e.2.identityPk, e.2.leafIndex⟩)
  groupSecret := st.groupSecret.getD []
  applicationKey := st.applicationKey.getD []
  groupHash := st.groupHash.getD []

/-! ## A group in use -/

/-- A membership change, or one messenger of the group at work. -/
inductive GroupUse where
  | change (op : GroupOp Bytes)
  | encrypt (plaintext ad : Bytes)
  | decrypt (message : GroupMessage Bytes) (ad : Bytes)

/-- What a use returns or raises. -/
inductive GroupOutcome where
  | changed
  | encrypted (message : GroupMessage Bytes)
  | decrypted (plaintext : Bytes)
  | raised (e : Exn)

variable {P : Type}

def GroupUse.step (c : Crypto Bytes P Bytes) (σ : GroupState Bytes × GroupMessenger) :
    GroupUse → GroupOutcome × GroupState Bytes × GroupMessenger
  | .change op =>
      match σ.1.call c.toKeyAlg op with
      | .ok _ st => (.changed, st, σ.2)
      | .error e st => (.raised e, st, σ.2)
  | .encrypt plaintext ad =>
      match GroupMessenger.encrypt c σ.1 plaintext ad σ.2 with
      | .ok message m => (.encrypted message, σ.1, m)
      | .error e m => (.raised e, σ.1, m)
  | .decrypt message ad =>
      match GroupMessenger.decrypt c σ.1 message ad σ.2 with
      | .ok plaintext m => (.decrypted plaintext, σ.1, m)
      | .error e m => (.raised e, σ.1, m)

/-- What the uses return, one after another. -/
def GroupUse.outcomes (c : Crypto Bytes P Bytes) :
    GroupState Bytes × GroupMessenger → List GroupUse → List GroupOutcome
  | _, [] => []
  | σ, use :: uses =>
      let (outcome, σ') := GroupUse.step c σ use
      outcome :: GroupUse.outcomes c σ' uses

end GhostChat.Ref
