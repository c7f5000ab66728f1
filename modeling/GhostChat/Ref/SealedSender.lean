import GhostChat.Ref.Client
import GhostChat.Ref.SessionManager

/-!
# Sealed sender (protocol/sealed_sender.py)

A sealed envelope hides who sent it. The sender's name, the session and the
ratchet header are packed with the ciphertext into one byte string, that is
encrypted under a key derived from the ratchet's root key, and only a routing
locator stays outside. The receiver does not know which session an envelope
is for and tries them all in the order they were made.

The sealing key is derived from the root key the ratchet has at the moment of
the call, on both sides.

Everything here ends up as base64 in a dict, so ciphertexts are bytes.
-/

namespace GhostChat.Ref

open GhostChat.Lib GhostChat.Lib.Effect

variable {K P : Type}

/-! ## Text helpers -/

/-- `s.encode()`. -/
def utf8Encode (s : String) : Bytes := s.toList.flatMap String.utf8EncodeChar

/-- `not s.strip()`. -/
def isBlank (s : String) : Bool := s.toList.all isSpace

def strip (s : String) : String :=
  String.ofList (((s.toList.dropWhile isSpace).reverse.dropWhile isSpace).reverse)

/-- `bool(v)`. -/
def Json.truthy : Json → Bool
  | .null => false
  | .bool b => b
  | .int n => n != 0
  | .float (.finite x) => x != 0
  | .float _ => true
  | .str s => !s.isEmpty
  | .list items => !items.isEmpty
  | .dict fields => !fields.isEmpty

/-- What a value is as the key of a dict. `True` and `1.0` are the key `1`, and
a list or a dict is none. -/
inductive DictKey where
  | none
  | int (n : Int)
  | float (value : PyFloat)
  | str (s : String)
  deriving DecidableEq

def Json.dictKey : Json → Except Exn DictKey
  | .null => .ok .none
  | .bool b => .ok (.int (if b then 1 else 0))
  | .int n => .ok (.int n)
  | .float (.finite x) => .ok (if x.den = 1 then .int x.num else .float (.finite x))
  | .float x => .ok (.float x)
  | .str s => .ok (.str s)
  | .list _ => .error (.typeError "unhashable type: 'list'")
  | .dict _ => .error (.typeError "unhashable type: 'dict'")

/-- `b64u_decode`: the length of the argument is taken outside the `try`. -/
def b64uDecode : Json → Except Exn Bytes
  | .str s =>
      match b64Decode s with
      | .ok b => .ok b
      | .error _ => .error (.invalidKeyFormat "Invalid base64-url data")
  | .list _ => .error (.invalidKeyFormat "Invalid base64-url data")
  | .dict _ => .error (.invalidKeyFormat "Invalid base64-url data")
  | _ => .error (.typeError "object has no len()")

/-! ## The inner package (protocol/message_format.py) -/

structure InnerSenderPackage where
  senderId : Bytes
  sessionId : Bytes
  dhPub : Bytes
  pn : Int
  n : Int
  ciphertext : Bytes
  deriving DecidableEq, Repr

/-- `struct.pack(">H", n)`. -/
def packUint16 (n : Nat) : Except Exn Bytes :=
  if n < 2 ^ 16 then .ok [UInt8.ofNat (n / 256), UInt8.ofNat n]
  else .error (.structError "'H' format requires 0 <= number <= 65535")

/-- `_serialize_inner`. -/
def serializeInner (inner : InnerSenderPackage) : Except Exn Bytes := do
  let senderLen ← packUint16 inner.senderId.length
  let sessionLen ← packUint16 inner.sessionId.length
  let dhLen ← packUint16 inner.dhPub.length
  let ctLen ← packUint32 inner.ciphertext.length
  return senderLen ++ (inner.senderId ++ (sessionLen ++ (inner.sessionId ++ (dhLen ++
    (inner.dhPub ++ (uint32be inner.pn ++ (uint32be inner.n ++ (ctLen ++ inner.ciphertext))))))))

/-- `read_u16`, `read_u32` and `read_bytes` on the data from `offset` on. -/
def readU16 (data : Bytes) : Except Exn (Nat × Bytes) :=
  if data.length < 2 then .error (.valueError "Inner package truncated (u16)")
  else .ok (fromBytesBig (data.take 2), data.drop 2)

def readU32 (data : Bytes) : Except Exn (Nat × Bytes) :=
  if data.length < 4 then .error (.valueError "Inner package truncated (u32)")
  else .ok (fromBytesBig (data.take 4), data.drop 4)

def readBytes (n : Nat) (data : Bytes) : Except Exn (Bytes × Bytes) :=
  if data.length < n then .error (.valueError "Inner package truncated (bytes)")
  else .ok (data.take n, data.drop n)

/-- `_parse_inner`. -/
def parseInner (data : Bytes) : Except Exn InnerSenderPackage := do
  let (lenSid, data) ← readU16 data
  let (senderId, data) ← readBytes lenSid data
  let (lenSess, data) ← readU16 data
  let (sessionId, data) ← readBytes lenSess data
  let (lenDh, data) ← readU16 data
  let (dhPub, data) ← readBytes lenDh data
  let (pn, data) ← readU32 data
  let (n, data) ← readU32 data
  let (lenCt, data) ← readU32 data
  let (ciphertext, data) ← readBytes lenCt data
  if data ≠ [] then throw (.valueError "Inner package has trailing bytes")
  if senderId.isEmpty ∨ sessionId.isEmpty ∨ dhPub.isEmpty then
    throw (.valueError "Inner package has empty required field")
  return {
    senderId := senderId, sessionId := sessionId, dhPub := dhPub
    pn := pn, n := n, ciphertext := ciphertext }

/-! ## Sealing -/

def sealedSenderVersion : Int := 1
def sealInfo : Bytes := ascii "ghostchat-sealed-sender-v1"
def nonceSize : Nat := 12

/-- `derive_sealing_key`. -/
def deriveSealingKey (a : KeyAlg K) (rootKey : K) : K := a.hkdf rootKey (a.lit []) sealInfo 0

/-- `seal`; `nonce` is what `os.urandom(NONCE_SIZE)` gives. -/
def sealInner (c : Crypto K P Bytes) (inner : InnerSenderPackage) (sealingKey : K)
    (nonce : Bytes) : Except Exn Bytes := do
  let plaintext ← serializeInner inner
  let ct ← chachaEncrypt c sealingKey nonce plaintext []
  return nonce ++ ct

/-- `unseal`. -/
def unsealInner (c : Crypto K P Bytes) (sealedPayload : Bytes) (sealingKey : K) :
    Except Exn InnerSenderPackage := do
  if sealedPayload.length < nonceSize + 16 then throw (.valueError "Sealed payload too short")
  let plaintext ← chachaDecrypt c sealingKey (sealedPayload.take nonceSize)
    (sealedPayload.drop nonceSize) []
  parseInner plaintext

/-! ## The outer envelope -/

structure SealedOuterEnvelope where
  version : Int
  recipientLocator : String
  ttl : Int
  sealedPayload : Bytes
  padding : Bytes

/-- `to_dict`. -/
def SealedOuterEnvelope.toDict (o : SealedOuterEnvelope) : Json := .dict [
  ("v", .int o.version),
  ("recipient_locator", .str o.recipientLocator),
  ("ttl", .int o.ttl),
  ("sp", .str (b64Encode o.sealedPayload)),
  ("pad", .str (if o.padding.isEmpty then "" else b64Encode o.padding))]

/-- `int(data.get(key, 0))` with `TypeError` and `ValueError` turned into
`ValueError(msg)`. -/
def intField (fields : List (String × Json)) (key msg : String) : Except Exn Int :=
  match ((Odict.get? fields key).getD (.int 0)).toInt with
  | .ok n => .ok n
  | .error (.typeError _) => .error (.valueError msg)
  | .error (.valueError _) => .error (.valueError msg)
  | .error e => .error e

/-- `from_dict`. -/
def SealedOuterEnvelope.fromDict : Json → Except Exn SealedOuterEnvelope
  | .dict fields => do
      let version ← intField fields "v" "Invalid or missing sealed envelope version"
      if version ≠ sealedSenderVersion then
        throw (.valueError "Unsupported sealed envelope version")
      let recipientLocator ← match Json.get fields "recipient_locator" with
        | .str s =>
            if isBlank s then .error (.valueError "Missing or invalid recipient_locator")
            else .ok s
        | _ => .error (.valueError "Missing or invalid recipient_locator")
      let ttl ← intField fields "ttl" "Invalid ttl"
      if ttl < 0 then throw (.valueError "ttl must be non-negative")
      let sp := Json.get fields "sp"
      if ¬ sp.truthy then throw (.valueError "Missing sealed payload (sp)")
      let sealedPayload ← match b64uDecode sp with
        | .ok b => .ok b
        | .error _ => .error (.valueError "Invalid sealed payload encoding")
      if sealedPayload.length < nonceSize + 16 then
        throw (.valueError "Sealed payload too short")
      let padRaw := Json.get fields "pad"
      let padding ← if padRaw.truthy then b64uDecode padRaw else .ok []
      return {
        version := version
        recipientLocator := recipientLocator
        ttl := ttl
        sealedPayload := sealedPayload
        padding := padding }
  | _ => .error (.attributeError "object has no attribute 'get'")

/-! ## The manager's two calls -/

namespace SessionContext

/-- What `encrypt_sealed` does with the session it found. -/
def encryptSealed (c : Crypto K P Bytes) (profile : String) (plaintext : Bytes)
    (recipientLocator : String) (ttl : Int) (nonce : Bytes) : Method K P Json := do
  let em ← onRatchet (DoubleRatchet.encrypt c plaintext [])
  let ctx ← get
  let inner : InnerSenderPackage := {
    senderId := utf8Encode profile
    sessionId := ctx.sessionId
    dhPub := em.header.dhPub
    pn := em.header.pn
    n := em.header.n
    ciphertext := em.ciphertext }
  let sealingKey := deriveSealingKey c.toKeyAlg ctx.ratchet.rootKey
  let sealedPayload ← lift (sealInner c inner sealingKey nonce)
  return SealedOuterEnvelope.toDict {
    version := sealedSenderVersion
    recipientLocator := recipientLocator
    ttl := ttl
    sealedPayload := sealedPayload
    padding := [] }

/-- The synthetic protocol envelope of an inner package. -/
def syntheticEnvelope (inner : InnerSenderPackage) : ProtocolEnvelope Bytes where
  version := currentVersion
  sessionId := inner.sessionId
  senderRatchetKey := inner.dhPub
  messageNumber := inner.n
  previousChainLength := inner.pn
  ciphertext := inner.ciphertext
  nonce := []
  metaData := []

/-- What `decrypt_sealed` does with the session that unsealed the package. -/
def decryptInner (c : Crypto K P Bytes) (inner : InnerSenderPackage) (generated : P) :
    Method K P Bytes := do
  guard (syntheticEnvelope inner) "replayed or stale sealed envelope"
  onRatchet (DoubleRatchet.decrypt c (messageOf (syntheticEnvelope inner)) [] generated)

end SessionContext

namespace SessionManager

/-- `encrypt_sealed`. -/
def encryptSealed (c : Crypto K P Bytes) (peerId plaintext : Bytes) (recipientLocator : String)
    (ttl : Int) (nonce : Bytes) : Method K P Json := do
  let m ← get
  withCtx peerId (SessionContext.encryptSealed c m.profile plaintext recipientLocator ttl nonce)

/-- The loop over the sessions. -/
def trySessions (c : Crypto K P Bytes) (sealedPayload : Bytes) (generated : P) :
    List (Bytes × SessionContext K P) → Method K P (Bytes × Bytes)
  | [] => throw (.valueError "sealed payload could not be decrypted with any session")
  | (peerId, ctx) :: rest =>
      match unsealInner c sealedPayload (deriveSealingKey c.toKeyAlg ctx.ratchet.rootKey) with
      | .error _ => trySessions c sealedPayload generated rest
      | .ok inner => do
          let plaintext ← withCtx peerId (SessionContext.decryptInner c inner generated)
          return (peerId, plaintext)

/-- `decrypt_sealed`. -/
def decryptSealed (c : Crypto K P Bytes) (outerDict : Json) (generated : P) :
    Method K P (Bytes × Bytes) := do
  let env ← lift (SealedOuterEnvelope.fromDict outerDict)
  let m ← get
  trySessions c env.sealedPayload generated m.sessions

end SessionManager

/-! ## Two linked managers that use it -/

/-- Two managers, the sealed envelopes each has made with what is in them
(oldest first), and how many envelopes each was handed. -/
structure SealedLink (K P : Type) where
  manager : Party → SessionManager K P
  posted : Party → List (Bytes × Json) := fun _ => []
  fetched : Party → Nat := fun _ => 0

inductive SealedAct (P : Type) where
  | post (who : Party) (plaintext : Bytes) (recipientLocator : String) (ttl : Int)
      (nonce : Bytes)
  | fetch (who : Party) (outerDict : Json) (generated : P)

def SealedLink.step (c : Crypto K P Bytes) (l : Linking K P) (σ : SealedLink K P) :
    SealedAct P → SealedLink K P
  | .post who pt loc ttl nonce =>
      match SessionManager.encryptSealed c (l.peerId who) pt loc ttl nonce (σ.manager who) with
      | .ok outer m => { σ with
          manager := Function.update σ.manager who m
          posted := Function.update σ.posted who (σ.posted who ++ [(pt, outer)]) }
      | .error _ m => { σ with manager := Function.update σ.manager who m }
  | .fetch who outer g => { σ with
      manager := Function.update σ.manager who
        (after (SessionManager.decryptSealed c outer g (σ.manager who)))
      fetched := Function.update σ.fetched who (σ.fetched who + 1) }

end GhostChat.Ref
