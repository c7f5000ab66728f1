import GhostChat.Ref.SealedSender
import Mathlib.Data.List.Sort

/-!
# Prekey bundles (client/crypto/prekey.py)

A bundle in memory is an identity, an X25519 identity key, a signed prekey and
a dictionary of one-time prekeys; a used one is taken out of the dictionary
and its id is written down. The same bundle has two texts: the public one,
which the relay hands to whoever asks for it, and the private one, which
`main` writes to a file and reads back.

Reading is where the relay comes in. `PeerBundle.from_dict` gets a JSON value
of anybody's making, and each field is read the way the source reads it, with
the exception Python would raise on a value of the wrong kind.

Signatures and SHA-256 are parameters, as X25519 is. So is the randomness:
what `generate` would give is handed in.
-/

namespace GhostChat.Ref

open GhostChat.Lib GhostChat.Lib.Effect

variable {K P C : Type}

/-! ## The cryptography of the handshake -/

structure HandshakeCrypto (K P C : Type) extends Crypto K P C where
  /-- `X25519PrivateKey(b)` for 32 bytes -/
  privateKey : Bytes → P
  /-- `hashlib.sha256(b).digest()` -/
  sha256 : Bytes → Bytes
  /-- `SigningKey(private).sign(message).signature` -/
  sign : (privateKey message : Bytes) → Bytes
  /-- whether `VerifyKey(public).verify(message, signature)` returns -/
  verify : (publicKey message signature : Bytes) → Bool

/-- A post-quantum KEM (crypto/pqc.py, `PQKEMBackend`), with the outcome of
the randomised calls. -/
structure PqBackend (K : Type) where
  algorithmSuite : Bytes
  generateKeypair : Except Exn (Bytes × Bytes)
  encapsulate : (publicKey : Bytes) → Except Exn (Bytes × K)
  decapsulate : (ciphertext secretKey : Bytes) → Except Exn K

/-- `X25519PrivateKey(b)`. -/
def x25519PrivateKey (h : HandshakeCrypto K P C) (b : Bytes) : Except Exn P :=
  if b.length ≠ 32 then
    .error (.typeError "PrivateKey must be created from a 32 bytes long raw secret key")
  else .ok (h.privateKey b)

def algorithmSuiteClassical : Bytes := ascii "ghostchat-x25519-only-v1"
def algorithmSuiteHybridKyber : Bytes := ascii "ghostchat-x25519-kyber768-v1"

/-! ## Keys (crypto/identity.py, crypto/prekeys.py) -/

structure IdentityKeyPair where
  publicKey : Bytes
  privateKey : Bytes
  deriving DecidableEq, Repr

structure SignedPreKey where
  keyId : Int
  publicKey : Bytes
  privateKey : Bytes
  signature : Bytes
  deriving DecidableEq, Repr

structure OneTimePreKey where
  keyId : Int
  publicKey : Bytes
  privateKey : Bytes
  deriving DecidableEq, Repr

/-- `SignedPreKey.generate`; `sk` is `bytes(X25519PrivateKey.generate())`. -/
def SignedPreKey.generate (h : HandshakeCrypto K P C) (keyId : Int)
    (identity : IdentityKeyPair) (sk : Bytes) : SignedPreKey :=
  let pk := h.publicKey (h.privateKey sk)
  { keyId := keyId, publicKey := pk, privateKey := sk
    signature := h.sign identity.privateKey pk }

/-- `OneTimePreKey.generate`. -/
def OneTimePreKey.generate (h : HandshakeCrypto K P C) (keyId : Int) (sk : Bytes) :
    OneTimePreKey :=
  { keyId := keyId, publicKey := h.publicKey (h.privateKey sk), privateKey := sk }

/-! ## `ClientPreKeyBundle` -/

structure ClientPreKeyBundle where
  identity : IdentityKeyPair
  identityDhPrivate : Bytes
  signedPrekey : SignedPreKey
  oneTimePrekeys : Odict Int OneTimePreKey := []
  usedOpkIds : List Int := []
  pqPublicKey : Option Bytes := none
  pqSecretKey : Option Bytes := none
  algorithmSuite : Bytes := algorithmSuiteClassical
  deriving DecidableEq, Repr

namespace ClientPreKeyBundle

def identityDhPublic (h : HandshakeCrypto K P C) (b : ClientPreKeyBundle) : Except Exn Bytes :=
  return h.publicKey (← x25519PrivateKey h b.identityDhPrivate)

def verifySpk (h : HandshakeCrypto K P C) (b : ClientPreKeyBundle) : Except Exn Unit :=
  if h.verify b.identity.publicKey b.signedPrekey.publicKey b.signedPrekey.signature then .ok ()
  else .error (.signedPreKeyVerification "Signed prekey signature invalid")

end ClientPreKeyBundle

/-- The integer a value is equal to as a dictionary key; `none` for values
that equal no integer. -/
def Json.asKey : Json → Except Exn (Option Int)
  | .int n => .ok (some n)
  | .bool b => .ok (some (if b then 1 else 0))
  | .float (.finite x) => .ok (if x.den = 1 then some x.num else none)
  | .list _ => .error (.typeError "unhashable type: 'list'")
  | .dict _ => .error (.typeError "unhashable type: 'dict'")
  | .null | .str _ | .float _ => .ok none

/-- `consume_one_time_prekey`, on an id as it came out of a JSON object. A
value that equals no integer is in neither collection. -/
def ClientPreKeyBundle.consumeOneTimePrekey (keyId : Json) :
    EStateM Exn ClientPreKeyBundle OneTimePreKey := do
  let b ← get
  match ← lift keyId.asKey with
  | none => throw (.oneTimePreKeyReuse "One-time prekey not found")
  | some id =>
      if id ∈ b.usedOpkIds then throw (.oneTimePreKeyReuse "One-time prekey already used")
      match Odict.get? b.oneTimePrekeys id with
      | none => throw (.oneTimePreKeyReuse "One-time prekey not found")
      | some opk => do
          modify fun b => { b with
            oneTimePrekeys := Odict.erase b.oneTimePrekeys id
            usedOpkIds := b.usedOpkIds ++ [id] }
          return opk

/-- What the generators give for one bundle. -/
structure GeneratedKeys where
  identityDh : Bytes
  spk : Bytes
  opk : Nat → Bytes

/-- `generate_prekey_bundle`, all its keyword arguments given. -/
def generatePrekeyBundleWith (h : HandshakeCrypto K P C) (identity : IdentityKeyPair)
    (identityDhPrivate : Option Bytes) (spkId opkStartId opkCount : Int) (gen : GeneratedKeys)
    (pqBackend : Option (PqBackend K)) : Except Exn ClientPreKeyBundle := do
  let opks := (List.range opkCount.toNat).map fun i : Nat =>
    (opkStartId + i, OneTimePreKey.generate h (opkStartId + i) (gen.opk i))
  let classical : ClientPreKeyBundle := {
    identity := identity
    identityDhPrivate := identityDhPrivate.getD gen.identityDh
    signedPrekey := SignedPreKey.generate h spkId identity gen.spk
    oneTimePrekeys := opks }
  let bundle ← match pqBackend with
    | none => pure classical
    | some pq => do
        let (pub, sk) ← pq.generateKeypair
        pure { classical with
          pqPublicKey := some pub, pqSecretKey := some sk, algorithmSuite := pq.algorithmSuite }
  bundle.verifySpk h
  return bundle

/-- `generate_prekey_bundle` with its defaults `spk_id=1`,
`opk_start_id=1000`, `opk_count=10`. -/
def generatePrekeyBundle (h : HandshakeCrypto K P C) (identity : IdentityKeyPair)
    (gen : GeneratedKeys) (pqBackend : Option (PqBackend K)) : Except Exn ClientPreKeyBundle :=
  generatePrekeyBundleWith h identity none 1 1000 10 gen pqBackend

/-! ## Texts -/

def bundleVersion : Int := 1

/-- `sorted(one_time_prekeys.values(), key=lambda k: k.key_id)`. -/
def ClientPreKeyBundle.sortedOpks (b : ClientPreKeyBundle) : List OneTimePreKey :=
  (b.oneTimePrekeys.map (·.2)).insertionSort (·.keyId ≤ ·.keyId)

/-- `b64u_encode(x) if x else None`. -/
def b64uOrNone (b : Bytes) : Json := if b.isEmpty then .null else .str (b64Encode b)

/-- The two fields a bundle with a post-quantum key has. -/
def pqFields (b : ClientPreKeyBundle) : List (String × Json) :=
  match b.pqPublicKey with
  | none => []
  | some pub => [("pq_pub", .str (b64Encode pub)),
      ("algorithm_suite", .str (b64Encode b.algorithmSuite))]

/-- `serialize_bundle(bundle, for_upload=True)`. -/
def serializeBundlePublic (h : HandshakeCrypto K P C) (b : ClientPreKeyBundle) :
    Except Exn Json := do
  let identityDhPub ← b.identityDhPublic h
  return .dict ([
    ("v", .int bundleVersion),
    ("identity_pub", .str (b64Encode b.identity.publicKey)),
    ("identity_dh_pub", .str (b64Encode identityDhPub)),
    ("spk", .dict [
      ("key_id", .int b.signedPrekey.keyId),
      ("pub", .str (b64Encode b.signedPrekey.publicKey)),
      ("sig", b64uOrNone b.signedPrekey.signature)]),
    ("opks", .list (b.sortedOpks.map fun opk => .dict [
      ("key_id", .int opk.keyId), ("pub", .str (b64Encode opk.publicKey))]))]
    ++ pqFields b)

/-- `serialize_bundle(bundle, for_upload=False)`. -/
def serializeBundlePrivate (h : HandshakeCrypto K P C) (b : ClientPreKeyBundle) :
    Except Exn Json := do
  let identityDhPub ← b.identityDhPublic h
  return .dict ([
    ("v", .int bundleVersion),
    ("identity_pub", .str (b64Encode b.identity.publicKey)),
    ("identity_dh_pub", .str (b64Encode identityDhPub)),
    ("spk", .dict [
      ("key_id", .int b.signedPrekey.keyId),
      ("pub", .str (b64Encode b.signedPrekey.publicKey)),
      ("sig", b64uOrNone b.signedPrekey.signature),
      ("priv", .str (b64Encode b.signedPrekey.privateKey))]),
    ("opks", .list (b.sortedOpks.map fun opk => .dict [
      ("key_id", .int opk.keyId), ("pub", .str (b64Encode opk.publicKey)),
      ("priv", .str (b64Encode opk.privateKey))]))]
    ++ pqFields b
    ++ [("identity_dh_priv", .str (b64Encode b.identityDhPrivate)),
      ("used_opk_ids", .list (b.usedOpkIds.map .int))]
    ++ (match b.pqSecretKey with
      | none => []
      | some sk => [("pq_priv", .str (b64Encode sk))]))

/-! ## Reading -/

/-- `d[key]` for a string key. -/
def Json.subscript (key : String) : Json → Except Exn Json
  | .dict d =>
      match Odict.get? d key with
      | some v => .ok v
      | none => .error (.keyError key)
  | .list _ => .error (.typeError "list indices must be integers or slices, not str")
  | .str _ => .error (.typeError "string indices must be integers, not 'str'")
  | _ => .error (.typeError "object is not subscriptable")

/-- `d.get(key)`. -/
def Json.getMethod (key : String) : Json → Except Exn Json
  | .dict d => .ok (Json.get d key)
  | _ => .error (.attributeError "object has no attribute 'get'")

/-- `for o in v`: the items of a list, the characters of a string, the keys of
a dict. -/
def Json.iterate : Json → Except Exn (List Json)
  | .list items => .ok items
  | .str s => .ok (s.toList.map fun ch => .str (String.singleton ch))
  | .dict d => .ok (d.map fun e => .str e.1)
  | _ => .error (.typeError "object is not iterable")

/-- `except (KeyError, ValueError)`. -/
def rewordMalformed {α : Type} (msg : String) : Except Exn α → Except Exn α
  | .error (.keyError _) | .error (.valueError _) => .error (.valueError msg)
  | r => r

/-- `b64u_decode(d[key]) if d.get(key) else absent`. -/
def decodeIfSet {α : Type} (key : String) (wrap : Bytes → α) (absent : α) (d : Json) :
    Except Exn α := do
  let v ← d.getMethod key
  if v.truthy then return wrap (← b64uDecode (← d.subscript key))
  return absent

structure PeerBundle where
  identityPub : Bytes
  identityDhPub : Bytes
  spkId : Int
  spkPub : Bytes
  spkSig : Bytes
  opks : List (Int × Bytes)
  pqPub : Option Bytes := none
  algorithmSuite : Bytes := algorithmSuiteClassical
  deriving DecidableEq, Repr

/-- `data["identity_pub"]` and the like: `except KeyError`. -/
def requireField (data : Json) (key : String) : Except Exn Json :=
  match data.subscript key with
  | .error (.keyError k) => .error (.valueError s!"Malformed peer bundle: missing field '{k}'")
  | r => r

/-- `data.get("opks", [])`. -/
def opksRaw : Json → Except Exn Json
  | .dict d => .ok ((Odict.get? d "opks").getD (.list []))
  | _ => .error (.attributeError "object has no attribute 'get'")

/-- One round of the loop over the one-time prekeys. -/
def peerOpk (o : Json) : Except Exn (Int × Bytes) :=
  rewordMalformed "Malformed peer bundle: invalid OPK entry" do
    let kid ← (← o.subscript "key_id").toInt
    let pub ← b64uDecode (← o.subscript "pub")
    return (kid, pub)

/-- The signed prekey's three fields. -/
def peerSpk (spk : Json) : Except Exn (Int × Bytes × Bytes) :=
  rewordMalformed "Malformed peer bundle: invalid or missing SPK fields" do
    let spkId ← (← spk.subscript "key_id").toInt
    let pub ← b64uDecode (← spk.subscript "pub")
    let sig ← decodeIfSet "sig" id [] spk
    return (spkId, pub, sig)

/-- `"algorithm_suite" not in data`. -/
def lacksSuite : Json → Bool
  | .dict d => !Odict.has d "algorithm_suite"
  | _ => true

def PeerBundle.fromDict (data : Json) : Except Exn PeerBundle := do
  let v ← data.getMethod "v"
  if !v.eqInt bundleVersion then throw (.valueError "Unsupported bundle version")
  let identityPubEnc ← requireField data "identity_pub"
  let identityDhPubEnc ← requireField data "identity_dh_pub"
  let spk ← requireField data "spk"
  let opksRaw ← opksRaw data
  let identityPub ← b64uDecode identityPubEnc
  let identityDhPub ← b64uDecode identityDhPubEnc
  let (spkId, spkPub, spkSig) ← peerSpk spk
  let opks ← (← opksRaw.iterate).mapM peerOpk
  let pqPub ← decodeIfSet "pq_pub" some none data
  if pqPub.isSome ∧ lacksSuite data then
    throw (.valueError "Peer bundle with pq_pub must include algorithm_suite")
  let algorithmSuite ← decodeIfSet "algorithm_suite" id algorithmSuiteClassical data
  return {
    identityPub := identityPub
    identityDhPub := identityDhPub
    spkId := spkId
    spkPub := spkPub
    spkSig := spkSig
    opks := opks
    pqPub := pqPub
    algorithmSuite := algorithmSuite }

/-- `SignedPreKey.deserialize` on the fields of the file. -/
def privateSpk (spk : Json) : Except Exn SignedPreKey := do
  let keyId ← (← spk.subscript "key_id").toInt
  let pub ← b64uDecode (← spk.subscript "pub")
  let priv ← decodeIfSet "priv" some none spk
  let sig ← decodeIfSet "sig" some none spk
  match priv, sig with
  | some priv, some sig =>
      return { keyId := keyId, publicKey := pub, privateKey := priv, signature := sig }
  | _, _ => throw (.invalidSignature "SPK missing private key or signature")

/-- The ids in `data.get("used_opk_ids", [])`. The program writes a list of
integers there; items that equal no integer are no ids. -/
def usedIds : Json → Except Exn (List Int)
  | .dict d =>
      match (Odict.get? d "used_opk_ids").getD (.list []) with
      | .list items => .ok (items.filterMap fun v =>
          match v.asKey with
          | .ok id => id
          | .error _ => none)
      | _ => .error (.typeError "argument is not iterable")
  | _ => .error (.attributeError "object has no attribute 'get'")

/-- One round of the loop over the one-time prekeys of the file. -/
def privateOpk (used : List Int) (opks : Odict Int OneTimePreKey) (o : Json) :
    Except Exn (Odict Int OneTimePreKey) := do
  let kid ← (← o.subscript "key_id").toInt
  if kid ∈ used then return opks
  let pub ← b64uDecode (← o.subscript "pub")
  let priv ← decodeIfSet "priv" some none o
  match priv with
  | none => throw (.oneTimePreKeyExhausted "OPK missing private key")
  | some priv =>
      return Odict.set opks kid { keyId := kid, publicKey := pub, privateKey := priv }

def deserializeBundlePrivate (data : Json) (identity : IdentityKeyPair) :
    Except Exn ClientPreKeyBundle := do
  let v ← data.getMethod "v"
  if !v.eqInt bundleVersion then throw (.valueError "Unsupported bundle version")
  let identityDhPrivate ← b64uDecode (← data.subscript "identity_dh_priv")
  let spk ← privateSpk (← data.subscript "spk")
  let used ← usedIds data
  let opks ← (← (← opksRaw data).iterate).foldlM (privateOpk used) []
  let pqPub ← decodeIfSet "pq_pub" some none data
  let pqPriv ← decodeIfSet "pq_priv" some none data
  let algorithmSuite ← decodeIfSet "algorithm_suite" id algorithmSuiteClassical data
  return {
    identity := identity
    identityDhPrivate := identityDhPrivate
    signedPrekey := spk
    oneTimePrekeys := opks
    usedOpkIds := used
    pqPublicKey := pqPub
    pqSecretKey := pqPriv
    algorithmSuite := algorithmSuite }

end GhostChat.Ref
