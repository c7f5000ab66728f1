import GhostChat.Ref.DoubleRatchet
import GhostChat.Ref.GroupMessaging

/-!
# The epoch ratchet of a group (group/group_ratchet.py)

The other way to send a group message. Every message has a key of its own,
derived from the group secret, the epoch and an index, and the index is the
sender's: a `GroupRatchet` counts what it has encrypted. The group state
belongs to whoever changes the membership, so a call is handed the state as it
is then, and only the counter is the ratchet's own.

Decrypting looks at the header and at the state and writes nothing.

`encryptKeyed` is `encrypt` with the key and the nonce of the call returned
next to the message.
-/

namespace GhostChat.Ref

open GhostChat.Lib GhostChat.Lib.Effect

variable {K P C : Type}

namespace GroupRatchet

/-- `_derive_message_key`. -/
def deriveMessageKey (a : KeyAlg K) (groupSecret : K) (epoch msgIndex : Int) : Except Exn K := do
  let e ← intToBytesBig epoch 8
  let i ← intToBytesBig msgIndex 8
  return a.hkdf groupSecret (a.lit (ascii "ghostchat-group-msg-salt"))
    (ascii "ghostchat-group-msg:" ++ e ++ ascii ":" ++ i) 0

/-- `GroupMessageHeader`. -/
structure Header where
  groupId : Bytes
  epoch : Int
  index : Int
  deriving DecidableEq, Repr

/-- `GroupCiphertext`. -/
structure GroupCiphertext (C : Type) where
  header : Header
  ciphertext : C
  deriving DecidableEq, Repr

end GroupRatchet

/-- `GroupRatchet`, without the state it refers to. -/
structure GroupRatchet where
  sendIndex : Nat := 0
  deriving DecidableEq, Repr

namespace GroupRatchet

/-- `__init__`. -/
def new (state : GroupState K) : Except Exn GroupRatchet :=
  match state.groupSecret with
  | none => .error (.valueError "GroupState must have a group_secret")
  | some _ => .ok {}

/-- `encrypt`, with the key and the nonce of the call. -/
def encryptKeyed (c : Crypto K P C) (state : GroupState K) (plaintext ad : Bytes) :
    EStateM Exn GroupRatchet (GroupCiphertext C × K × Bytes) := do
  match state.groupSecret with
  | none => throw (.valueError "Missing group secret")
  | some secret => do
      let r ← get
      let mk ← lift (deriveMessageKey c.toKeyAlg secret state.epoch r.sendIndex)
      let nonce ← lift (mkToNonce (c.bytes mk) r.sendIndex)
      let ct ← lift (chachaEncrypt c mk nonce plaintext ad)
      modify fun r => { r with sendIndex := r.sendIndex + 1 }
      return ({
        header := { groupId := state.groupId, epoch := state.epoch, index := r.sendIndex }
        ciphertext := ct }, mk, nonce)

def encrypt (c : Crypto K P C) (state : GroupState K) (plaintext ad : Bytes) :
    EStateM Exn GroupRatchet (GroupCiphertext C) :=
  Prod.fst <$> encryptKeyed c state plaintext ad

/-- `decrypt`. The index is not negative where the nonce is made: it has been
packed into eight bytes by then. -/
def decrypt (c : Crypto K P C) (state : GroupState K) (message : GroupCiphertext C)
    (ad : Bytes) : Except Exn Bytes := do
  match state.groupSecret with
  | none => throw (.valueError "Missing group secret")
  | some secret => do
      if message.header.groupId ≠ state.groupId then throw (.valueError "Group ID mismatch")
      if message.header.epoch ≠ state.epoch then throw (.valueError "Epoch mismatch")
      let mk ← deriveMessageKey c.toKeyAlg secret message.header.epoch message.header.index
      let nonce ← mkToNonce (c.bytes mk) message.header.index.toNat
      chachaDecrypt c mk nonce message.ciphertext ad

end GroupRatchet

/-! ## Members who talk -/

/-- A message some ratchet encrypted: which one, what it was given, and what
the call used. -/
structure RatchetUse (K C : Type) where
  sender : Nat
  plaintext : Bytes
  ad : Bytes
  message : GroupRatchet.GroupCiphertext C
  key : K
  nonce : Bytes

/-- One group, the ratchets its members have made, and the messages so far
(newest first). -/
structure RatchetRoom (K C : Type) where
  state : GroupState K
  ratchets : List GroupRatchet := []
  log : List (RatchetUse K C) := []

/-- A membership change, a member's `GroupRatchet(state)`, or a call of
`encrypt`. -/
inductive RatchetAct (K : Type) where
  | change (op : GroupOp K)
  | make
  | encrypt (i : Nat) (plaintext ad : Bytes)

def RatchetRoom.step (c : Crypto K P C) (σ : RatchetRoom K C) : RatchetAct K → RatchetRoom K C
  | .change op => { σ with state := after (σ.state.call c.toKeyAlg op) }
  | .make =>
      match GroupRatchet.new σ.state with
      | .ok r => { σ with ratchets := σ.ratchets ++ [r] }
      | .error _ => σ
  | .encrypt i plaintext ad =>
      match σ.ratchets[i]? with
      | none => σ
      | some r =>
          match GroupRatchet.encryptKeyed c σ.state plaintext ad r with
          | .ok (ct, key, nonce) r' => { σ with
              ratchets := σ.ratchets.set i r'
              log := ⟨i, plaintext, ad, ct, key, nonce⟩ :: σ.log }
          | .error _ r' => { σ with ratchets := σ.ratchets.set i r' }

end GhostChat.Ref
