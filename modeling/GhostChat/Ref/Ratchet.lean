import GhostChat.Lib.Effect
import GhostChat.Lib.Odict
import GhostChat.Ref.Kdf

/-!
# The client's double ratchet (client/crypto/double_ratchet.py)

`DoubleRatchetEngine` is a mutable object, and its methods raise in the
middle of their updates, so every method is a call in the sense of
`Lib/Effect.lean`: the state it leaves behind is part of what it does, also
when it raises. The assignments stand in the source's order.

Three things the code takes from outside are parameters. X25519 is
`publicKey` and `sharedKey`, and `sharedKey` is partial because `Box` raises
on a public key of low order. ChaCha20-Poly1305 is `encrypt` and `decrypt`;
`encrypt` is partial because the package refuses over-long data. Randomness is
an argument: a call that may run `X25519PrivateKey.generate()` is handed the
key it would get.

`ratchetEncryptKeyed` and `ratchetDecryptKeyed` are the two methods with the
AEAD key of the call returned next to the result. The methods themselves drop
it; the theorems about key use need to see it.
-/

namespace GhostChat.Ref

open GhostChat.Lib GhostChat.Lib.Effect

/-- The cryptography outside the repository, over keys `K`, private DH keys
`P` and ciphertexts `C`. -/
structure Crypto (K P C : Type) extends KeyAlg K where
  /-- `bytes(X25519PrivateKey(p).public_key)` -/
  publicKey : P → Bytes
  /-- `Box(priv, pub)._shared_key`; `none` where `Box` raises -/
  sharedKey : P → Bytes → Option K
  /-- `ChaCha20Poly1305(key).encrypt(nonce, data, ad)`; `none` where the data
  is too long for it -/
  encrypt : (key : K) → (nonce data ad : Bytes) → Option C
  /-- `ChaCha20Poly1305(key).decrypt(nonce, data, ad)`; `none` is
  `InvalidTag` -/
  decrypt : (key : K) → (nonce : Bytes) → (data : C) → (ad : Bytes) → Option Bytes

variable {K P C : Type}

/-! ## Messages (client/crypto/message.py) -/

/-- `RatchetMessageHeader`. -/
structure RatchetMessageHeader where
  dh : Bytes
  n : Int
  pn : Int
  deriving DecidableEq, Repr

/-- `RatchetWireMessage`. -/
structure RatchetWireMessage (C : Type) where
  header : RatchetMessageHeader
  ciphertext : C
  nonce : Bytes
  deriving DecidableEq, Repr

/-! ## AEAD (client/crypto/symmetric.py) -/

def aeadEncrypt (c : Crypto K P C) (key : K) (plaintext nonce ad : Bytes) :
    Except Exn C :=
  if (c.bytes key).length ≠ 32 then .error (.valueError "key must be 32 bytes")
  else if nonce.length ≠ 12 then .error (.valueError "nonce must be 12 bytes")
  else match c.encrypt key nonce plaintext ad with
    | some ct => .ok ct
    | none => .error (.overflowError "Data or associated data too long. Max 2**31 - 1 bytes")

def aeadDecrypt (c : Crypto K P C) (key : K) (ciphertext : C) (nonce ad : Bytes) :
    Except Exn Bytes :=
  if (c.bytes key).length ≠ 32 then .error (.valueError "key must be 32 bytes")
  else if nonce.length ≠ 12 then .error (.valueError "nonce must be 12 bytes")
  else match c.decrypt key nonce ciphertext ad with
    | some p => .ok p
    | none => .error .invalidTag

/-! ## Constants and helpers -/

def aadNonceLen : Nat := 12
def dhPubLen : Nat := 32
def maxSkipDistance : Nat := 5000

/-- `_header_aad`: `dh || n || pn`, the counters as uint32. -/
def headerAad (h : RatchetMessageHeader) : Bytes :=
  h.dh ++ uint32be h.n ++ uint32be h.pn

/-- `_message_key_to_nonce`. -/
def messageKeyToNonce (mk : Bytes) (n : Nat) : Except Exn Bytes :=
  if mk.length < aadNonceLen then
    .error (.valueError "message key too short for nonce derivation")
  else .ok (xorCounter (mk.take aadNonceLen) n)

/-! ## `ReceivedIdsStore` -/

/-- The bounded replay cache: accepted `(dh, n)`, oldest first. -/
structure ReceivedIdsStore where
  maxSize : Nat := 2000
  order : List (Bytes × Nat) := []
  deriving DecidableEq, Repr

def ReceivedIdsStore.contains (r : ReceivedIdsStore) (dhPub : Bytes) (n : Nat) :
    Bool := (dhPub, n) ∈ r.order

def ReceivedIdsStore.add (dhPub : Bytes) (n : Nat) :
    EStateM Exn ReceivedIdsStore Unit := do
  if n > 0xFFFFFFFF then
    throw (.valueError "message number must be in range [0, 2^32-1]")
  let r ← get
  if r.contains dhPub n then return ()
  let e := evictTo r.maxSize r.order
  modify fun r => { r with order := e.1 }
  if e.2 then throw (.keyError "dictionary is empty")
  modify fun r => { r with order := r.order ++ [(dhPub, n)] }

/-! ## `SkippedMessageKeys` -/

/-- The bounded store `(dh_pub, n) -> message_key`, oldest first. -/
structure SkippedMessageKeys (K : Type) where
  maxKeys : Nat := 1000
  store : Odict (Bytes × Nat) K := []
  deriving DecidableEq, Repr

def SkippedMessageKeys.has (sk : SkippedMessageKeys K) (dhPub : Bytes) (n : Nat) :
    Bool := Odict.has sk.store (dhPub, n)

def SkippedMessageKeys.add (a : KeyAlg K) (dhPub : Bytes) (n : Nat) (key : K) :
    EStateM Exn (SkippedMessageKeys K) Unit := do
  if dhPub.length ≠ dhPubLen then throw (.valueError "dh_pub must be 32 bytes")
  if (a.bytes key).length ≠ dhPubLen then
    throw (.valueError "message key must be 32 bytes")
  if n > 0xFFFFFFFF then
    throw (.valueError "message number n must be in range [0, 2^32-1]")
  let sk ← get
  let e := evictTo sk.maxKeys sk.store
  modify fun sk => { sk with store := e.1 }
  if e.2 then throw (.keyError "dictionary is empty")
  modify fun sk => { sk with store := Odict.set sk.store (dhPub, n) key }

def SkippedMessageKeys.pop (dhPub : Bytes) (n : Nat) :
    EStateM Exn (SkippedMessageKeys K) K := do
  let sk ← get
  match Odict.get? sk.store (dhPub, n) with
  | none => throw (.skippedKeyNotFound "No skipped key for header")
  | some key =>
      modify fun sk => { sk with store := Odict.erase sk.store (dhPub, n) }
      return key

/-! ## `DoubleRatchetState` -/

structure DoubleRatchetState (K P : Type) where
  rootKey : K
  sendingChainKey : Option K := none
  receivingChainKey : Option K := none
  dhsPrivate : Option P := none
  dhr : Option Bytes := none
  Ns : Nat := 0
  Nr : Nat := 0
  PN : Nat := 0
  skippedMessageKeys : SkippedMessageKeys K := {}
  receivedIds : ReceivedIdsStore := {}
  sessionVersion : Nat := 1
  deriving DecidableEq, Repr

/-- A method of `DoubleRatchetEngine`. -/
abbrev Engine (K P : Type) := EStateM Exn (DoubleRatchetState K P)

/-- Run a method of the skipped-key store on the engine's store. -/
def onSkipped {α : Type} (x : EStateM Exn (SkippedMessageKeys K) α) :
    Engine K P α :=
  zoom (·.skippedMessageKeys) (fun sk s => { s with skippedMessageKeys := sk }) x

/-- Run a method of the replay cache on the engine's cache. -/
def onReceived {α : Type} (x : EStateM Exn ReceivedIdsStore α) : Engine K P α :=
  zoom (·.receivedIds) (fun r s => { s with receivedIds := r }) x

/-- `_dh(X25519PrivateKey(state.dhs_private), X25519PublicKey(pub))`. -/
def dhWith (c : Crypto K P C) (dhsPrivate : Option P) (pub : Bytes) :
    Except Exn K :=
  if pub.length ≠ dhPubLen then
    .error (.valueError "The public key must be exactly 32 bytes long")
  else match dhsPrivate with
    | none => .error (.typeError "PrivateKey must be created from a 32 bytes long raw secret key")
    | some dhs => match c.sharedKey dhs pub with
      | some k => .ok k
      | none => .error (.runtimeError "Unexpected library error")

/-- `DoubleRatchetState.dhs_public_bytes`. -/
def dhsPublicBytes (c : Crypto K P C) (s : DoubleRatchetState K P) :
    Except Exn Bytes :=
  match s.dhsPrivate with
  | none => .error (.valueError "dhs_private not set")
  | some dhs => .ok (c.publicKey dhs)

/-! ## Ratchet steps -/

/-- The body of `while state.Nr < until` in `_skip_receiving_until`, at most
`fuel` times; `until - Nr` rounds are what the loop runs. -/
def skipReceivingLoop (a : KeyAlg K) (dhr : Bytes) (upTo : Nat) :
    Nat → Engine K P Unit
  | 0 => pure ()
  | fuel + 1 => do
      let s ← get
      if s.Nr < upTo then
        match s.receivingChainKey with
        | none => throw (.typeError "ikm must be bytes")
        | some ck =>
            modify fun s => { s with receivingChainKey := some (kdfChain a ck).1 }
            onSkipped (SkippedMessageKeys.add a dhr s.Nr (kdfChain a ck).2)
            modify fun s => { s with Nr := s.Nr + 1 }
            skipReceivingLoop a dhr upTo fuel
      else pure ()

/-- `_skip_receiving_until`. -/
def skipReceivingUntil (a : KeyAlg K) (upTo : Nat) : Engine K P Unit := do
  let s ← get
  match s.receivingChainKey, s.dhr with
  | some _, some dhr => skipReceivingLoop a dhr upTo (upTo - s.Nr)
  | _, _ => pure ()

/-- `_dh_ratchet_receive_first`. -/
def dhRatchetReceiveFirst (a : KeyAlg K) (newRemoteDh : Bytes) : Engine K P Unit :=
  modify fun s => { s with
    dhr := some newRemoteDh
    receivingChainKey := some (kdfInitialChain a s.rootKey) }

/-- `_dh_ratchet_receive`. The counters and `dhr` are written before the DH
that may raise. -/
def dhRatchetReceive (c : Crypto K P C) (newRemoteDh : Bytes) (generated : P) :
    Engine K P Unit := do
  modify fun s => { s with PN := s.Ns, Ns := 0, Nr := 0, dhr := some newRemoteDh }
  let s ← get
  let shared ← lift (dhWith c s.dhsPrivate newRemoteDh)
  modify fun s => { s with
    rootKey := (kdfRoot c.toKeyAlg s.rootKey shared).1
    receivingChainKey := some (kdfRoot c.toKeyAlg s.rootKey shared).2
    dhsPrivate := some generated
    sendingChainKey := none }

/-- `_dh_ratchet_step_send`. -/
def dhRatchetStepSend (c : Crypto K P C) : Engine K P Unit := do
  let s ← get
  match s.dhr with
  | none => pure ()
  | some dhr => do
      let shared ← lift (dhWith c s.dhsPrivate dhr)
      modify fun s => { s with
        rootKey := (kdfRoot c.toKeyAlg s.rootKey shared).1
        sendingChainKey := some (kdfRoot c.toKeyAlg s.rootKey shared).2
        Ns := 0 }

/-! ## Encrypt -/

/-- The first half of `ratchet_encrypt`: make sure there is a sending chain
and step it, `state.sending_chain_key, mk = kdf_chain(...)`. -/
def nextSendingKey (c : Crypto K P C) : Engine K P K := do
  let s ← get
  if s.sendingChainKey.isNone then dhRatchetStepSend c
  let s ← get
  match s.sendingChainKey with
  | none => throw (.decryption
      "No sending chain key (protocol not initialized or peer DH missing)")
  | some ck => do
      modify fun s => { s with sendingChainKey := some (kdfChain c.toKeyAlg ck).1 }
      return (kdfChain c.toKeyAlg ck).2

/-- The second half of `ratchet_encrypt`: header, nonce, associated data,
AEAD, `Ns += 1`. -/
def sealWith (c : Crypto K P C) (mk : K) (plaintext : Bytes) :
    Engine K P (RatchetWireMessage C) := do
  let s ← get
  let dh ← lift (dhsPublicBytes c s)
  let header : RatchetMessageHeader := { dh := dh, n := s.Ns, pn := s.PN }
  let nonce ← lift (messageKeyToNonce (c.bytes mk) s.Ns)
  let ciphertext ← lift (aeadEncrypt c mk plaintext nonce (headerAad header))
  modify fun s => { s with Ns := s.Ns + 1 }
  return { header := header, ciphertext := ciphertext, nonce := nonce }

/-- `ratchet_encrypt`, with the AEAD key the call used. -/
def ratchetEncryptKeyed (c : Crypto K P C) (plaintext : Bytes) :
    Engine K P (RatchetWireMessage C × K) := do
  let mk ← nextSendingKey c
  let msg ← sealWith c mk plaintext
  return (msg, mk)

/-- `ratchet_encrypt`. -/
def ratchetEncrypt (c : Crypto K P C) (plaintext : Bytes) :
    Engine K P (RatchetWireMessage C) := Prod.fst <$> ratchetEncryptKeyed c plaintext

/-! ## Decrypt -/

/-- The tail both decryption paths share: nonce check, AEAD, replay cache.
Whatever is raised inside the `try` becomes `DecryptionError(failed)`. -/
def openWith (c : Crypto K P C) (mk : K) (msg : RatchetWireMessage C)
    (failed : String) : Engine K P Bytes := do
  let nonce ← lift (messageKeyToNonce (c.bytes mk) msg.header.n.toNat)
  if msg.nonce ≠ nonce then
    throw (.decryption "Nonce mismatch (tampering or corruption)")
  match aeadDecrypt c mk msg.ciphertext nonce (headerAad msg.header) with
  | .error _ => throw (.decryption failed)
  | .ok plaintext => fun s =>
      match onReceived (ReceivedIdsStore.add msg.header.dh msg.header.n.toNat) s with
      | .ok _ s' => .ok plaintext s'
      | .error _ s' => .error (.decryption failed) s'

/-- The bootstrap and ratchet branches of `ratchet_decrypt`: on return `dhr`
is the header's key and there is a receiving chain for it. -/
def ensureReceivingChain (c : Crypto K P C) (dh : Bytes) (generated : P) :
    Engine K P Unit := do
  let s ← get
  if s.dhr.isNone ∧ s.receivingChainKey.isSome ∧ s.sendingChainKey.isNone then
    modify fun s => { s with dhr := some dh }
  else if s.dhr.isNone ∧ s.sendingChainKey.isSome then do
    skipReceivingUntil c.toKeyAlg s.Nr
    dhRatchetReceive c dh generated
  else if s.receivingChainKey.isNone ∧ s.dhr.isNone then do
    skipReceivingUntil c.toKeyAlg s.Nr
    dhRatchetReceiveFirst c.toKeyAlg dh
  else if s.receivingChainKey.isNone ∧ s.dhr = some dh then do
    let shared ← lift (dhWith c s.dhsPrivate dh)
    modify fun s => { s with
      rootKey := (kdfRoot c.toKeyAlg s.rootKey shared).1
      receivingChainKey := some (kdfRoot c.toKeyAlg s.rootKey shared).2 }
  let s ← get
  if s.dhr.isSome ∧ s.dhr ≠ some dh then do
    skipReceivingUntil c.toKeyAlg s.Nr
    dhRatchetReceive c dh generated

/-- Step the receiving chain once: `state.receiving_chain_key, mk =
kdf_chain(state.receiving_chain_key)`, `state.Nr += 1`. -/
def nextReceivingKey (a : KeyAlg K) : Engine K P K := do
  let s ← get
  match s.receivingChainKey with
  | none => throw (.typeError "ikm must be bytes")
  | some ck => do
      modify fun s => { s with
        receivingChainKey := some (kdfChain a ck).1
        Nr := s.Nr + 1 }
      return (kdfChain a ck).2

/-- The checks of `ratchet_decrypt` on the header alone. -/
def checkHeader (msg : RatchetWireMessage C) : Except Exn Unit :=
  if msg.header.dh.length ≠ dhPubLen then
    .error (.decryption "Invalid header: dh must be 32 bytes")
  else if msg.header.n < 0 then
    .error (.decryption "Invalid header: message number must be non-negative")
  else if msg.nonce.length ≠ aadNonceLen then
    .error (.decryption "Invalid message: nonce must be 12 bytes")
  else .ok ()

/-- The end of `ratchet_decrypt`, once the receiving chain is the header's:
the two distance checks, the skipping, the message key, the AEAD. -/
def decryptOnChain (c : Crypto K P C) (msg : RatchetWireMessage C) :
    Engine K P (Bytes × K) := do
  let n := msg.header.n.toNat
  let s ← get
  if n < s.Nr then
    throw (.duplicateMessage "Message number already processed (replay)")
  if s.receivingChainKey.isSome ∧ n - s.Nr > maxSkipDistance then
    throw (.skipDistanceExceeded
      s!"Skip distance {n - s.Nr} exceeds MAX_SKIP_DISTANCE={maxSkipDistance}")
  skipReceivingUntil c.toKeyAlg n
  let mk ← nextReceivingKey c.toKeyAlg
  let plaintext ← openWith c mk msg "AEAD verification failed"
  return (plaintext, mk)

/-- `ratchet_decrypt`, with the AEAD key the call used. -/
def ratchetDecryptKeyed (c : Crypto K P C) (msg : RatchetWireMessage C)
    (generated : P) : Engine K P (Bytes × K) := do
  lift (checkHeader msg)
  let dh := msg.header.dh
  let n := msg.header.n.toNat
  let s ← get
  if s.receivedIds.contains dh n then
    throw (.duplicateMessage "Message already processed (replay or duplicate header)")
  if s.skippedMessageKeys.has dh n then do
    let mk ← onSkipped (SkippedMessageKeys.pop dh n)
    let plaintext ← openWith c mk msg "AEAD verification failed (skipped-key path)"
    return (plaintext, mk)
  else do
    if s.dhr = some dh ∧ n < s.Nr then
      throw (.duplicateMessage "Message number already processed (replay)")
    ensureReceivingChain c dh generated
    decryptOnChain c msg

/-- `ratchet_decrypt`. -/
def ratchetDecrypt (c : Crypto K P C) (msg : RatchetWireMessage C) (generated : P) :
    Engine K P Bytes := Prod.fst <$> ratchetDecryptKeyed c msg generated

/-! ## `create_initial_state` -/

def createInitialState (c : Crypto K P C) (rootKey : K) (isInitiator : Bool)
    (dhr : Option Bytes) (maxSkippedKeys : Nat) (generated : P) :
    Except Exn (DoubleRatchetState K P) :=
  if (c.bytes rootKey).length ≠ 32 then
    .error (.valueError "root_key must be 32 bytes")
  else match dhr with
    | some peer => do
        let shared ← dhWith c (some generated) peer
        let k := kdfRoot c.toKeyAlg rootKey shared
        return { rootKey := k.1
                 sendingChainKey := if isInitiator then some k.2 else none
                 receivingChainKey := if isInitiator then none else some k.2
                 dhsPrivate := some generated
                 dhr := some peer
                 skippedMessageKeys := { maxKeys := maxSkippedKeys } }
    | none =>
        let ck := kdfInitialChain c.toKeyAlg rootKey
        .ok { rootKey := rootKey
              sendingChainKey := if isInitiator then some ck else none
              receivingChainKey := if isInitiator then none else some ck
              dhsPrivate := some generated
              skippedMessageKeys := { maxKeys := maxSkippedKeys } }

end GhostChat.Ref
