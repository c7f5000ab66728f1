import GhostChat.Ref.Ratchet

/-!
# The protocol layer's double ratchet (ratchet/double_ratchet.py)

A second ratchet, next to the client's. It has the same key derivation and
the same two chains, but no header check, no associated data of its own, no
replay cache and no bound on the skip distance: those are the business of the
session manager above it. What it does have of its own is the store of
skipped keys, which refuses instead of evicting.

A chain is stepped before the store is asked and before the ciphertext is
authenticated, and `dhr` and the counters are written before the DH that may
raise. All of that stays when a call raises.

As in `Ref/Ratchet.lean` the `Keyed` methods return the AEAD key of the call
next to its result.
-/

namespace GhostChat.Ref

open GhostChat.Lib GhostChat.Lib.Effect

variable {K P C : Type}

/-! ## AEAD and nonces -/

/-- `ChaCha20Poly1305(key).encrypt(nonce, plaintext, ad)`. -/
def chachaEncrypt (c : Crypto K P C) (key : K) (nonce plaintext ad : Bytes) : Except Exn C :=
  if (c.bytes key).length ≠ 32 then
    .error (.valueError "ChaCha20Poly1305 key must be 32 bytes.")
  else if nonce.length ≠ 12 then .error (.valueError "Nonce must be 12 bytes")
  else match c.encrypt key nonce plaintext ad with
    | some ct => .ok ct
    | none => .error (.overflowError "Data or associated data too long. Max 2**31 - 1 bytes")

/-- `ChaCha20Poly1305(key).decrypt(nonce, ciphertext, ad)`. -/
def chachaDecrypt (c : Crypto K P C) (key : K) (nonce : Bytes) (ciphertext : C) (ad : Bytes) :
    Except Exn Bytes :=
  if (c.bytes key).length ≠ 32 then
    .error (.valueError "ChaCha20Poly1305 key must be 32 bytes.")
  else if nonce.length ≠ 12 then .error (.valueError "Nonce must be 12 bytes")
  else match c.decrypt key nonce ciphertext ad with
    | some p => .ok p
    | none => .error .invalidTag

/-- `_mk_to_nonce`. -/
def mkToNonce (mk : Bytes) (n : Nat) : Except Exn Bytes :=
  if (mk.take 12).length < 4 then .error (.indexError "bytearray index out of range")
  else .ok (xorCounter (mk.take 12) n)

/-! ## State (ratchet/state.py, ratchet/skipped_keys.py) -/

structure RatchetHeader where
  dhPub : Bytes
  pn : Int
  n : Int
  deriving DecidableEq, Repr

structure EncryptedMessage (C : Type) where
  header : RatchetHeader
  ciphertext : C
  deriving DecidableEq, Repr

/-- `SkippedKeyStore`, keyed by ratchet key and message number. -/
structure SkippedKeyStore (K : Type) where
  maxKeys : Nat := 1000
  store : Odict (Bytes × Int) K := []
  deriving DecidableEq, Repr

def SkippedKeyStore.has (sk : SkippedKeyStore K) (ratchetPub : Bytes) (msgNum : Int) : Bool :=
  Odict.has sk.store (ratchetPub, msgNum)

def SkippedKeyStore.add (ratchetPub : Bytes) (msgNum : Int) (key : K) :
    EStateM Exn (SkippedKeyStore K) Unit := do
  let sk ← get
  if sk.store.length ≥ sk.maxKeys then
    throw (.skippedKeyStorageLimit "Skipped message key store capacity exceeded")
  modify fun sk => { sk with store := Odict.set sk.store (ratchetPub, msgNum) key }

def SkippedKeyStore.pop (ratchetPub : Bytes) (msgNum : Int) :
    EStateM Exn (SkippedKeyStore K) K := do
  let sk ← get
  match Odict.get? sk.store (ratchetPub, msgNum) with
  | none => throw (.skippedKeyNotFound "No skipped key for header")
  | some key =>
      modify fun sk => { sk with store := Odict.erase sk.store (ratchetPub, msgNum) }
      return key

structure RatchetState (K P : Type) where
  rootKey : K
  dhs : P
  dhr : Option Bytes
  ckS : Option K
  ckR : Option K
  Ns : Nat := 0
  Nr : Nat := 0
  PN : Nat := 0
  skippedKeys : SkippedKeyStore K := {}
  deriving DecidableEq, Repr

namespace DoubleRatchet

/-- A method of `DoubleRatchet`. -/
abbrev Method (K P : Type) := EStateM Exn (RatchetState K P)

/-- Run a method of the skipped-key store on the ratchet's store. -/
def onStore {α : Type} (x : EStateM Exn (SkippedKeyStore K) α) : Method K P α :=
  zoom (·.skippedKeys) (fun sk s => { s with skippedKeys := sk }) x

/-- `__init__`; `generated` is what `X25519PrivateKey.generate()` would give. -/
def init (c : Crypto K P C) (rootKey : K) (dhs : Option P) (dhr : Option Bytes)
    (isInitiator : Bool) (maxSkippedKeys : Nat) (generated : P) :
    Except Exn (RatchetState K P) :=
  let dhsKey := dhs.getD generated
  match dhr with
  | none => .ok {
      rootKey := rootKey, dhs := dhsKey, dhr := none, ckS := none, ckR := none
      skippedKeys := { maxKeys := maxSkippedKeys } }
  | some peer => do
      let shared ← dhWith c (some dhsKey) peer
      let ck := (kdfRoot c.toKeyAlg rootKey shared).2
      return {
        rootKey := (kdfRoot c.toKeyAlg rootKey shared).1
        dhs := dhsKey
        dhr := some peer
        ckS := if isInitiator then some ck else none
        ckR := if isInitiator then none else some ck
        skippedKeys := { maxKeys := maxSkippedKeys } }

/-! ## Ratchet steps -/

/-- The body of `while self.state.Nr < until`, at most `fuel` times;
`until - Nr` rounds are what the loop runs. -/
def skipLoop (a : KeyAlg K) (upTo : Int) : Nat → Method K P Unit
  | 0 => pure ()
  | fuel + 1 => do
      let s ← get
      if (s.Nr : Int) < upTo then
        match s.ckR with
        | none => throw (.typeError "key_material must be bytes")
        | some ck =>
            modify fun s => { s with ckR := some (kdfChain a ck).1 }
            onStore (SkippedKeyStore.add (s.dhr.getD []) s.Nr (kdfChain a ck).2)
            modify fun s => { s with Nr := s.Nr + 1 }
            skipLoop a upTo fuel
      else pure ()

/-- `_skip_message_keys`. -/
def skipMessageKeys (a : KeyAlg K) (upTo : Int) : Method K P Unit := do
  let s ← get
  if s.ckR.isNone then pure ()
  else skipLoop a upTo (upTo - s.Nr).toNat

/-- `_dh_ratchet_receive`. -/
def dhRatchetReceive (c : Crypto K P C) (newRemoteDh : Bytes) (generated : P) :
    Method K P Unit := do
  modify fun s => { s with PN := s.Ns, Ns := 0, Nr := 0, dhr := some newRemoteDh }
  let s ← get
  let shared ← lift (dhWith c (some s.dhs) newRemoteDh)
  modify fun s => { s with
    rootKey := (kdfRoot c.toKeyAlg s.rootKey shared).1
    ckR := some (kdfRoot c.toKeyAlg s.rootKey shared).2
    dhs := generated
    ckS := none }

/-- `_dh_ratchet_step`. -/
def dhRatchetStep (c : Crypto K P C) : Method K P Unit := do
  let s ← get
  match s.dhr with
  | none => pure ()
  | some dhr => do
      let shared ← lift (dhWith c (some s.dhs) dhr)
      modify fun s => { s with
        rootKey := (kdfRoot c.toKeyAlg s.rootKey shared).1
        ckS := some (kdfRoot c.toKeyAlg s.rootKey shared).2
        Ns := 0 }

/-! ## Encrypt -/

/-- The first half of `encrypt`: make sure there is a sending chain and step
it. -/
def nextSendingKey (c : Crypto K P C) : Method K P K := do
  let s ← get
  if s.ckS.isNone then dhRatchetStep c
  let s ← get
  match s.ckS with
  | none => throw (.typeError "key_material must be bytes")
  | some ck => do
      modify fun s => { s with ckS := some (kdfChain c.toKeyAlg ck).1 }
      return (kdfChain c.toKeyAlg ck).2

/-- The second half of `encrypt`: header, nonce, AEAD, `Ns += 1`. -/
def sealWith (c : Crypto K P C) (mk : K) (plaintext ad : Bytes) :
    Method K P (EncryptedMessage C) := do
  let s ← get
  let header : RatchetHeader := { dhPub := c.publicKey s.dhs, pn := s.PN, n := s.Ns }
  let nonce ← lift (mkToNonce (c.bytes mk) s.Ns)
  let ciphertext ← lift (chachaEncrypt c mk nonce plaintext ad)
  modify fun s => { s with Ns := s.Ns + 1 }
  return { header := header, ciphertext := ciphertext }

/-- `encrypt`, with the AEAD key the call used. -/
def encryptKeyed (c : Crypto K P C) (plaintext ad : Bytes) :
    Method K P (EncryptedMessage C × K) := do
  let mk ← nextSendingKey c
  let em ← sealWith c mk plaintext ad
  return (em, mk)

def encrypt (c : Crypto K P C) (plaintext ad : Bytes) : Method K P (EncryptedMessage C) :=
  Prod.fst <$> encryptKeyed c plaintext ad

/-! ## Decrypt -/

/-- Nonce and AEAD. The number is not negative where the source gets here: a
stored key has the number it was skipped at, and a smaller number than `Nr`
has been refused. -/
def openWith (c : Crypto K P C) (mk : K) (message : EncryptedMessage C) (ad : Bytes) :
    Except Exn Bytes := do
  let nonce ← mkToNonce (c.bytes mk) message.header.n.toNat
  chachaDecrypt c mk nonce message.ciphertext ad

/-- Steps 2a and 2b of `decrypt`. -/
def ensureReceivingChain (c : Crypto K P C) (dhPub : Bytes) (generated : P) :
    Method K P Unit := do
  let s ← get
  if s.ckR.isNone ∧ s.dhr = some dhPub then do
    let shared ← lift (dhWith c (some s.dhs) dhPub)
    modify fun s => { s with
      rootKey := (kdfRoot c.toKeyAlg s.rootKey shared).1
      ckR := some (kdfRoot c.toKeyAlg s.rootKey shared).2 }
  let s ← get
  if s.dhr ≠ some dhPub then do
    skipMessageKeys c.toKeyAlg s.Nr
    dhRatchetReceive c dhPub generated

/-- Step the receiving chain once, `Nr += 1`. -/
def nextReceivingKey (a : KeyAlg K) : Method K P K := do
  let s ← get
  match s.ckR with
  | none => throw (.typeError "key_material must be bytes")
  | some ck => do
      modify fun s => { s with ckR := some (kdfChain a ck).1, Nr := s.Nr + 1 }
      return (kdfChain a ck).2

/-- Step 3 of `decrypt`. -/
def decryptOnChain (c : Crypto K P C) (message : EncryptedMessage C) (ad : Bytes) :
    Method K P (Bytes × K) := do
  let s ← get
  if message.header.n < s.Nr then
    throw (.duplicateMessage "Message number already processed in this chain")
  skipMessageKeys c.toKeyAlg message.header.n
  let mk ← nextReceivingKey c.toKeyAlg
  let plaintext ← lift (openWith c mk message ad)
  return (plaintext, mk)

/-- `decrypt`, with the AEAD key the call used. -/
def decryptKeyed (c : Crypto K P C) (message : EncryptedMessage C) (ad : Bytes)
    (generated : P) : Method K P (Bytes × K) := do
  let h := message.header
  let s ← get
  if s.skippedKeys.has h.dhPub h.n then do
    let mk ← onStore (SkippedKeyStore.pop h.dhPub h.n)
    let plaintext ← lift (openWith c mk message ad)
    return (plaintext, mk)
  else do
    ensureReceivingChain c h.dhPub generated
    decryptOnChain c message ad

def decrypt (c : Crypto K P C) (message : EncryptedMessage C) (ad : Bytes) (generated : P) :
    Method K P Bytes := Prod.fst <$> decryptKeyed c message ad generated

end DoubleRatchet

end GhostChat.Ref
