import GhostChat.Ref.Group
import GhostChat.Ref.Ratchet

/-!
# Group messages (group/group_messaging.py, client/group_manager.py)

Everybody in a group encrypts under the application key of the epoch. A
`GroupMessenger` is made from a group state and a leaf index; the counter it
puts into the nonce is its own and starts at zero. The state is shared with
whoever changes the membership, so a messenger is handed the state as it is at
the call.

`encryptKeyed` is `encrypt` with the key and the nonce of the call returned
next to the message.
-/

namespace GhostChat.Ref

open GhostChat.Lib GhostChat.Lib.Effect

variable {K P C : Type}

structure GroupMessageHeader where
  groupId : Bytes
  epoch : Int
  senderLeafIndex : Int
  counter : Int
  deriving DecidableEq, Repr

structure GroupMessage (C : Type) where
  header : GroupMessageHeader
  ciphertext : C
  deriving DecidableEq, Repr

/-- The replay cache: `(sender_leaf_index, counter)`, newest first. -/
structure ReplayCache where
  maxEntries : Nat := 2048
  seen : List (Int × Int) := []
  deriving DecidableEq, Repr

/-- A full cache refuses every new key. -/
def ReplayCache.checkAndMark (r : ReplayCache) (senderLeaf counter : Int) :
    Bool × ReplayCache :=
  if (senderLeaf, counter) ∈ r.seen then (false, r)
  else if r.seen.length ≥ r.maxEntries then (false, r)
  else (true, { r with seen := (senderLeaf, counter) :: r.seen })

structure GroupMessenger where
  senderLeafIndex : Nat
  counter : Nat := 0
  replayCache : ReplayCache := {}
  deriving DecidableEq, Repr

/-- `GroupMessenger.__init__`. -/
def GroupMessenger.new (state : GroupState K) (senderLeafIndex : Nat) :
    Except Exn GroupMessenger :=
  match state.applicationKey with
  | none => .error (.valueError "GroupState is missing application_key")
  | some _ => .ok { senderLeafIndex := senderLeafIndex }

/-- `_nonce_from_counter`, on the bytes of the application key. -/
def groupNonce (key : Bytes) (counter : Nat) : Except Exn Bytes :=
  if (key.take 12).length < 4 then .error (.indexError "bytearray index out of range")
  else .ok (xorCounter (key.take 12) counter)

/-- `n.to_bytes(width, "big")` of a value that may be negative. -/
def intToBytesBig (n : Int) (width : Nat) : Except Exn Bytes :=
  if n < 0 then .error (.overflowError "can't convert negative int to unsigned")
  else toBytesBig n.toNat width

/-- The associated data of a group message. -/
def groupAad (header : GroupMessageHeader) (ad : Bytes) : Except Exn Bytes := do
  let epoch ← intToBytesBig header.epoch 8
  let leaf ← intToBytesBig header.senderLeafIndex 4
  let counter ← intToBytesBig header.counter 8
  return header.groupId ++ epoch ++ leaf ++ counter ++ ad

/-- `ChaCha20Poly1305(app_key)`. -/
def groupCipher (c : Crypto K P C) (key : K) : Except Exn Unit :=
  if (c.bytes key).length ≠ 32 then
    .error (.valueError "ChaCha20Poly1305 key must be 32 bytes.")
  else .ok ()

/-- `GroupMessenger.encrypt`, with the key and the nonce it used. -/
def GroupMessenger.encryptKeyed (c : Crypto K P C) (state : GroupState K)
    (plaintext ad : Bytes) : EStateM Exn GroupMessenger (GroupMessage C × K × Bytes) := do
  match state.applicationKey with
  | none => throw (.valueError "Missing application key")
  | some appKey => do
      let m ← get
      let nonce ← lift (groupNonce (c.bytes appKey) m.counter)
      lift (groupCipher c appKey)
      let header : GroupMessageHeader := {
        groupId := state.groupId
        epoch := state.epoch
        senderLeafIndex := m.senderLeafIndex
        counter := m.counter }
      let adBytes ← lift (groupAad header ad)
      match c.encrypt appKey nonce plaintext adBytes with
      | none => throw (.overflowError
          "Data or associated data too long. Max 2**31 - 1 bytes")
      | some ct => do
          modify fun m => { m with counter := m.counter + 1 }
          return ({ header := header, ciphertext := ct }, appKey, nonce)

def GroupMessenger.encrypt (c : Crypto K P C) (state : GroupState K) (plaintext ad : Bytes) :
    EStateM Exn GroupMessenger (GroupMessage C) :=
  Prod.fst <$> GroupMessenger.encryptKeyed c state plaintext ad

/-- `GroupMessenger.decrypt`. The message is in the replay cache before it has
been authenticated. -/
def GroupMessenger.decrypt (c : Crypto K P C) (state : GroupState K)
    (message : GroupMessage C) (ad : Bytes) : EStateM Exn GroupMessenger Bytes := do
  let header := message.header
  if header.groupId ≠ state.groupId then throw (.valueError "Group ID mismatch")
  if header.epoch ≠ state.epoch then throw (.epochMismatch "Stale or future epoch")
  if ¬ (state.members.any fun e => (e.2.leafIndex : Int) = header.senderLeafIndex) then
    throw (.membership "Unknown sender leaf index")
  let m ← get
  let marked := m.replayCache.checkAndMark header.senderLeafIndex header.counter
  modify fun m => { m with replayCache := marked.2 }
  if ¬ marked.1 then throw (.replayedGroupMessage "Duplicate group message counter")
  match state.applicationKey with
  | none => throw (.valueError "Missing application key")
  | some appKey => do
      -- A negative counter gets a nonce too, and no associated data.
      let nonce ← lift (groupNonce (c.bytes appKey) header.counter.toNat)
      lift (groupCipher c appKey)
      let adBytes ← lift (groupAad header ad)
      match c.decrypt appKey nonce message.ciphertext adBytes with
      | none => throw .invalidTag
      | some plaintext => return plaintext

/-! ## `GroupManager` -/

/-- The groups of one client: the state a controller or holder has, and the
client's own leaf. -/
structure GroupManager (K : Type) where
  groups : Odict Bytes (GroupState K × Nat) := []

/-- `get_messenger`: a new messenger at every call, with the state it refers
to. -/
def GroupManager.getMessenger (manager : GroupManager K) (groupId : Bytes) :
    Except Exn (Option (GroupMessenger × GroupState K)) :=
  match Odict.get? manager.groups groupId with
  | none => .ok none
  | some (state, myLeafIndex) => do
      let messenger ← GroupMessenger.new state myLeafIndex
      return some (messenger, state)

/-- The part of `send_group_text` (client/message_api.py) that encrypts. -/
def sendGroupText (c : Crypto K P C) (manager : GroupManager K) (groupId text : Bytes) :
    Except Exn (GroupMessage C × K × Bytes) :=
  match manager.getMessenger groupId with
  | .error e => .error e
  | .ok none => .error (.valueError "No group state for group_id")
  | .ok (some (messenger, state)) =>
      match GroupMessenger.encryptKeyed c state text [] messenger with
      | .ok r _ => .ok r
      | .error e _ => .error e

/-! ## A group that talks -/

/-- A membership change, or somebody sends. Messengers that are kept are
numbered; a text goes through a messenger of its own. -/
inductive TalkAct (K : Type) where
  | change (op : GroupOp K)
  | make (senderLeafIndex : Nat)
  | encrypt (i : Nat) (plaintext ad : Bytes)
  | sendText (myLeafIndex : Nat) (text : Bytes)

/-- One use of the AEAD: the epoch, the key and the nonce, and the counter
that went into the nonce. -/
structure NonceUse (K : Type) where
  epoch : Nat
  key : K
  nonce : Bytes
  counter : Nat
  deriving DecidableEq

/-- The state the members share, the messengers they keep, and the uses of
the AEAD so far, newest first. -/
structure GroupTalk (K : Type) where
  state : GroupState K
  messengers : List GroupMessenger := []
  log : List (NonceUse K) := []

def GroupTalk.step (c : Crypto K P C) (σ : GroupTalk K) : TalkAct K → GroupTalk K
  | .change op => { σ with state := after (σ.state.call c.toKeyAlg op) }
  | .make leaf =>
      match GroupMessenger.new σ.state leaf with
      | .ok m => { σ with messengers := σ.messengers ++ [m] }
      | .error _ => σ
  | .encrypt i plaintext ad =>
      match σ.messengers[i]? with
      | none => σ
      | some m =>
          match GroupMessenger.encryptKeyed c σ.state plaintext ad m with
          | .ok (msg, key, nonce) m' => { σ with
              messengers := σ.messengers.set i m'
              log := ⟨σ.state.epoch, key, nonce, msg.header.counter.toNat⟩ :: σ.log }
          | .error _ m' => { σ with messengers := σ.messengers.set i m' }
  | .sendText leaf text =>
      match sendGroupText c { groups := [(σ.state.groupId, (σ.state, leaf))] }
          σ.state.groupId text with
      | .ok (msg, key, nonce) => { σ with
          log := ⟨σ.state.epoch, key, nonce, msg.header.counter.toNat⟩ :: σ.log }
      | .error _ => σ

end GhostChat.Ref
