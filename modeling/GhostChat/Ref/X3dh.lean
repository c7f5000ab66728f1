import GhostChat.Ref.Prekey

/-!
# X3DH (client/crypto/x3dh.py, client/crypto/hybrid.py)

The two sides of the handshake are two functions written apart: they take the
DH steps from opposite ends, and each puts together its own transcript and
picks its own suite. Only the last lines, from the shared secret to the root
key, are the same text twice and one definition here.

A one-time prekey is gone from the responder's bundle as soon as it has been
found, whatever happens after that.

The `Keyed` functions return, next to the result, which keys the call went by:
for a DH step that is the public half of the key it used, and for the
transcript the bytes that stand in it.
-/

namespace GhostChat.Ref

open GhostChat.Lib GhostChat.Lib.Effect

variable {K P C : Type}

/-! ## Combining secrets (client/crypto/hybrid.py) -/

def hybridCombineSalt : Bytes := ascii "ghostchat-hybrid-combine-v1"
def hybridCombineInfo : Bytes := ascii "ghostchat-x3dh-hybrid-combine-v1"
def classicalOnlyInfo : Bytes := ascii "ghostchat-x3dh-classical-only-v1"

def isHybridSuite (algorithmSuite : Bytes) : Bool :=
  decide (algorithmSuite = algorithmSuiteHybridKyber)

def combineClassical (a : KeyAlg K) (classicalShared : K) (algorithmSuite : Bytes) :
    Except Exn K :=
  if algorithmSuite ≠ algorithmSuiteClassical then
    .error (.valueError "Algorithm suite must be classical when pq_shared is None")
  else .ok (a.hkdf classicalShared (a.lit hybridCombineSalt) classicalOnlyInfo 0)

def combineSharedSecrets (a : KeyAlg K) (classicalShared : K) (pqShared : Option K)
    (algorithmSuite : Bytes) : Except Exn K :=
  match pqShared with
  | none => combineClassical a classicalShared algorithmSuite
  | some pq =>
      if (a.bytes pq).isEmpty then combineClassical a classicalShared algorithmSuite
      else .ok (a.hkdf (a.cat classicalShared pq) (a.lit hybridCombineSalt) hybridCombineInfo 0)

/-! ## Checks -/

def keyLen : Nat := 32
def ed25519SigLen : Nat := 64

def x3dhSalt : Bytes := ascii "ghostchat-x3dh-v1"
def x3dhInfo : Bytes := ascii "ghostchat-x3dh-shared"
def x3dhRootInfo : Bytes := ascii "ghostchat-x3dh-root"
def x3dhRootSalt : Bytes := ascii "ghostchat-x3dh-root-salt"

/-- One round of the loop in `_validate_peer_bundle`. -/
def validateOpk (opk : Int × Bytes) : Except Exn Unit :=
  if opk.2.length ≠ keyLen then
    .error (.x3dhInitialization "Invalid OPK public key length")
  else if opk.1 < 0 then .error (.x3dhInitialization "Invalid OPK key id")
  else .ok ()

/-- `_validate_peer_bundle`. -/
def validatePeerBundle (peerBundle : PeerBundle) : Except Exn Unit := do
  if peerBundle.identityPub.length ≠ keyLen then
    throw (.x3dhInitialization "Invalid identity_pub length")
  if peerBundle.identityDhPub.length ≠ keyLen then
    throw (.x3dhInitialization "Invalid identity_dh_pub length")
  if peerBundle.spkPub.length ≠ keyLen then
    throw (.x3dhInitialization "Invalid spk_pub length")
  if peerBundle.spkSig.isEmpty ∨ peerBundle.spkSig.length ≠ ed25519SigLen then
    throw (.x3dhInitialization "Invalid or missing SPK signature (expected 64 bytes)")
  peerBundle.opks.forM validateOpk

/-- `_verify_spk_signature`. -/
def verifySpkSignature (h : HandshakeCrypto K P C) (identityPub spkPub spkSig : Bytes) :
    Except Exn Unit :=
  if identityPub.length ≠ keyLen ∨ spkPub.length ≠ keyLen ∨ spkSig.length ≠ ed25519SigLen then
    .error (.signedPreKeyVerification "SPK or identity key or signature length invalid")
  else if h.verify identityPub spkPub spkSig then .ok ()
  else .error (.signedPreKeyVerification "Signed prekey signature verification failed")

/-! ## Transcript and root key -/

/-- `struct.pack(">I", opk_id if opk_id is not None else 0xFFFF_FFFF)`. -/
def packOpkId : Json → Except Exn Bytes
  | .null => .ok (uint32be 0xFFFFFFFF)
  | .int n =>
      if 0 ≤ n ∧ n < 2 ^ 32 then .ok (uint32be n)
      else .error (.structError "'I' format requires 0 <= number <= 4294967295")
  | .bool b => .ok (uint32be (if b then 1 else 0))
  | _ => .error (.structError "required argument is not an integer")

/-- `_build_transcript`. -/
def buildTranscript (ikAPub ikBPub spkBPub ephPub : Bytes) (opkId : Json)
    (algorithmSuite : Bytes) : Except Exn Bytes := do
  let opkIdBytes ← packOpkId opkId
  let base := ikAPub ++ ikBPub ++ spkBPub ++ ephPub ++ opkIdBytes
  return if algorithmSuite ≠ algorithmSuiteClassical then base ++ algorithmSuite else base

/-- From the shared secrets and the transcript hash to the root key. -/
def x3dhRootKey (a : KeyAlg K) (sharedX3dh : K) (pqShared : Option K) (th algorithmSuite : Bytes) :
    Except Exn K :=
  if algorithmSuite = algorithmSuiteClassical then
    .ok (a.hkdf sharedX3dh (a.lit x3dhRootSalt) (x3dhRootInfo ++ th) 0)
  else do
    let combined ← combineSharedSecrets a sharedX3dh pqShared algorithmSuite
    return a.hkdf combined (a.lit x3dhRootSalt) (x3dhRootInfo ++ th ++ algorithmSuite) 0

structure X3DHResult (K : Type) where
  rootKey : K
  usedOpkId : Json
  transcriptHash : Bytes
  pqCiphertext : Option Bytes
  algorithmSuite : Bytes

/-- The keys a side of the handshake went by. -/
structure HandshakeKeys (K : Type) where
  initiatorIdentity : Bytes
  responderIdentity : Bytes
  /-- the signed prekey in the transcript -/
  signedPrekey : Bytes
  /-- the signed prekey of the DH steps -/
  signedPrekeyDh : Bytes
  ephemeral : Bytes
  oneTimePrekey : Option (Int × Bytes)
  suite : Bytes
  pqShared : Option K

/-- `dh1 + dh2 + dh3`, and `dh4` if there is one. -/
def x3dhIkm (a : KeyAlg K) (dh1 dh2 dh3 : K) : Option K → K
  | none => a.cat (a.cat dh1 dh2) dh3
  | some dh4 => a.cat (a.cat (a.cat dh1 dh2) dh3) dh4

/-! ## The initiator -/

/-- The KEM step: done if the bundle has a post-quantum key, names the hybrid
suite, and there is a backend. -/
def initiatorPq (peerBundle : PeerBundle) (pqBackend : Option (PqBackend K)) :
    Except Exn (Option (Bytes × K)) :=
  match peerBundle.pqPub, pqBackend with
  | some pqPub, some pq =>
      if isHybridSuite peerBundle.algorithmSuite then some <$> pq.encapsulate pqPub
      else .ok none
  | _, _ => .ok none

/-- The DH step with the one-time prekey. -/
def initiatorDh4 (h : HandshakeCrypto K P C) (ephemeralPrivate : P) :
    Option (Int × Bytes) → Except Exn (Option K)
  | none => .ok none
  | some (_, opkPub) =>
      if opkPub.length ≠ keyLen then
        .error (.x3dhInitialization "Invalid OPK public key length")
      else some <$> dhWith h.toCrypto (some ephemeralPrivate) opkPub

/-- `x3dh_initiator`, with the keys the call went by. -/
def x3dhInitiatorKeyed (h : HandshakeCrypto K P C) (identityDhPrivate : Bytes)
    (ephemeralPrivate : P) (peerBundle : PeerBundle) (opkIdAndPub : Option (Int × Bytes))
    (pqBackend : Option (PqBackend K)) :
    Except Exn ((X3DHResult K × Bytes) × HandshakeKeys K) := do
  validatePeerBundle peerBundle
  verifySpkSignature h peerBundle.identityPub peerBundle.spkPub peerBundle.spkSig
  if identityDhPrivate.length ≠ keyLen then
    throw (.x3dhInitialization "Invalid identity_dh_private length")
  if peerBundle.pqPub.isSome ∧ isHybridSuite peerBundle.algorithmSuite ∧ pqBackend.isNone then
    throw (.algorithmSuiteMismatch "Peer bundle is hybrid but no PQ backend provided")
  let ikA ← x25519PrivateKey h identityDhPrivate
  let dh1 ← dhWith h.toCrypto (some ikA) peerBundle.spkPub
  let dh2 ← dhWith h.toCrypto (some ephemeralPrivate) peerBundle.identityDhPub
  let dh3 ← dhWith h.toCrypto (some ephemeralPrivate) peerBundle.spkPub
  let dh4 ← initiatorDh4 h ephemeralPrivate opkIdAndPub
  let sharedX3dh := h.hkdf (x3dhIkm h.toKeyAlg dh1 dh2 dh3 dh4) (h.lit x3dhSalt) x3dhInfo 0
  let pq ← initiatorPq peerBundle pqBackend
  let algorithmSuite :=
    if pq.isSome then peerBundle.algorithmSuite else algorithmSuiteClassical
  let usedOpkId : Json := match opkIdAndPub with
    | none => .null
    | some (opkId, _) => .int opkId
  let transcript ← buildTranscript (h.publicKey ikA) peerBundle.identityDhPub peerBundle.spkPub
    (h.publicKey ephemeralPrivate) usedOpkId algorithmSuite
  let rootKey ← x3dhRootKey h.toKeyAlg sharedX3dh (pq.map (·.2)) (h.sha256 transcript)
    algorithmSuite
  return (({
    rootKey := rootKey
    usedOpkId := usedOpkId
    transcriptHash := h.sha256 transcript
    pqCiphertext := pq.map (·.1)
    algorithmSuite := algorithmSuite }, h.publicKey ephemeralPrivate), {
    initiatorIdentity := h.publicKey ikA
    responderIdentity := peerBundle.identityDhPub
    signedPrekey := peerBundle.spkPub
    signedPrekeyDh := peerBundle.spkPub
    ephemeral := h.publicKey ephemeralPrivate
    oneTimePrekey := opkIdAndPub
    suite := algorithmSuite
    pqShared := pq.map (·.2) })

def x3dhInitiator (h : HandshakeCrypto K P C) (identityDhPrivate : Bytes)
    (ephemeralPrivate : P) (peerBundle : PeerBundle) (opkIdAndPub : Option (Int × Bytes))
    (pqBackend : Option (PqBackend K)) : Except Exn (X3DHResult K × Bytes) :=
  Prod.fst <$> x3dhInitiatorKeyed h identityDhPrivate ephemeralPrivate peerBundle opkIdAndPub
    pqBackend

/-! ## The responder -/

/-- `bundle_is_hybrid`. -/
def ClientPreKeyBundle.isHybrid (b : ClientPreKeyBundle) : Bool :=
  b.pqSecretKey.isSome && b.pqPublicKey.isSome && isHybridSuite b.algorithmSuite

/-- Whether what the initiator sent fits the bundle. -/
def checkSuite (b : ClientPreKeyBundle) (pqCiphertext : Option Bytes) (suite : Bytes) :
    Except Exn Unit :=
  if b.isHybrid ∧ (pqCiphertext.isNone ∨ ¬ isHybridSuite suite) then
    .error (.algorithmSuiteMismatch
      "Responder bundle is hybrid but initiator did not send PQ ciphertext or suite mismatch")
  else if ¬ b.isHybrid ∧ (pqCiphertext.isSome ∨ isHybridSuite suite) then
    .error (.algorithmSuiteMismatch
      "Responder bundle is classical but initiator sent PQ material or hybrid suite")
  else .ok ()

/-- The DH step with the one-time prekey, which is consumed; also the prekey's
id and public half. -/
def responderDh4 (h : HandshakeCrypto K P C) (initiatorEphPub : Bytes) (opkIdUsed : Json) :
    EStateM Exn ClientPreKeyBundle (Option (K × Int × Bytes)) := do
  match opkIdUsed with
  | .null => return none
  | keyId => do
      let opk ← ClientPreKeyBundle.consumeOneTimePrekey keyId
      let opkPriv ← lift (x25519PrivateKey h opk.privateKey)
      let dh4 ← lift (dhWith h.toCrypto (some opkPriv) initiatorEphPub)
      let id ← lift keyId.asKey
      return some (dh4, id.getD 0, h.publicKey opkPriv)

/-- The KEM step. -/
def responderPq (b : ClientPreKeyBundle) (pqCiphertext : Option Bytes)
    (pqBackend : Option (PqBackend K)) : Except Exn (Option K) :=
  match b.isHybrid, pqCiphertext, b.pqSecretKey with
  | true, some ciphertext, some secretKey =>
      match pqBackend with
      | none => .error (.algorithmSuiteMismatch
          "Responder bundle is hybrid but no PQ backend provided for decapsulation")
      | some pq =>
          if ciphertext.isEmpty then
            .error (.x3dhInitialization "PQ ciphertext empty (malformed or truncated)")
          else some <$> pq.decapsulate ciphertext secretKey
  | _, _, _ => .ok none

/-- `x3dh_responder`, with the keys the call went by. -/
def x3dhResponderKeyed (h : HandshakeCrypto K P C)
    (initiatorIdentityDhPub initiatorEphPub : Bytes) (opkIdUsed : Json)
    (pqCiphertext algorithmSuite : Option Bytes) (pqBackend : Option (PqBackend K)) :
    EStateM Exn ClientPreKeyBundle (X3DHResult K × HandshakeKeys K) := do
  if initiatorIdentityDhPub.length ≠ keyLen ∨ initiatorEphPub.length ≠ keyLen then
    throw (.x3dhInitialization "Invalid initiator key length")
  let bundle ← get
  let suite := algorithmSuite.getD algorithmSuiteClassical
  lift (checkSuite bundle pqCiphertext suite)
  lift (bundle.verifySpk h)
  let spkBPriv ← lift (x25519PrivateKey h bundle.signedPrekey.privateKey)
  let ikBPriv ← lift (x25519PrivateKey h bundle.identityDhPrivate)
  let dh1 ← lift (dhWith h.toCrypto (some spkBPriv) initiatorIdentityDhPub)
  let dh2 ← lift (dhWith h.toCrypto (some ikBPriv) initiatorEphPub)
  let dh3 ← lift (dhWith h.toCrypto (some spkBPriv) initiatorEphPub)
  let opk ← responderDh4 h initiatorEphPub opkIdUsed
  let ikm := x3dhIkm h.toKeyAlg dh1 dh2 dh3 (opk.map (·.1))
  let sharedX3dh := h.hkdf ikm (h.lit x3dhSalt) x3dhInfo 0
  let pqShared ← lift (responderPq bundle pqCiphertext pqBackend)
  let transcript ← lift (buildTranscript initiatorIdentityDhPub (h.publicKey ikBPriv)
    bundle.signedPrekey.publicKey initiatorEphPub opkIdUsed suite)
  let rootKey ← lift (x3dhRootKey h.toKeyAlg sharedX3dh pqShared (h.sha256 transcript) suite)
  return ({
    rootKey := rootKey
    usedOpkId := opkIdUsed
    transcriptHash := h.sha256 transcript
    pqCiphertext := none
    algorithmSuite := suite }, {
    initiatorIdentity := initiatorIdentityDhPub
    responderIdentity := h.publicKey ikBPriv
    signedPrekey := bundle.signedPrekey.publicKey
    signedPrekeyDh := h.publicKey spkBPriv
    ephemeral := initiatorEphPub
    oneTimePrekey := opk.map (·.2)
    suite := suite
    pqShared := pqShared })

def x3dhResponder (h : HandshakeCrypto K P C)
    (initiatorIdentityDhPub initiatorEphPub : Bytes) (opkIdUsed : Json)
    (pqCiphertext algorithmSuite : Option Bytes) (pqBackend : Option (PqBackend K)) :
    EStateM Exn ClientPreKeyBundle (X3DHResult K) :=
  Prod.fst <$> x3dhResponderKeyed h initiatorIdentityDhPub initiatorEphPub opkIdUsed pqCiphertext
    algorithmSuite pqBackend

end GhostChat.Ref
