import GhostChat.Ref.SendLoop
import GhostChat.Ref.X3dh

/-!
# Starting a client and setting up sessions (client/client.py)

`main` reads the prekey bundle from its file, or makes one and writes it; the
file is written at no other time. `async_main` then sets up a session with the
peer it was asked for: by X3DH if the relay has a bundle, and where anything
of that raises, from the peer's ephemeral key as the relay gives it. A session
file that is there is used instead of the new root key.

The other direction is `handle_session_inits`: a `session_init` of anybody's
is answered with `x3dh_responder` and a new session. What is read from the
message is read outside the `try`, so a message that cannot be read ends the
task.

Everything the relay sends is a JSON value of its own making, and sockets and
file system may fail at each call.
-/

namespace GhostChat.Ref

open GhostChat.Lib GhostChat.Lib.Effect

variable {K P C : Type}

/-! ## The bundle file (`main`) -/

/-- What there is under the bundle's path. -/
abbrev BundleFile := SessionFile

/-- How writing the bundle ends: `open(path, "w")` truncates, so a failure may
leave an incomplete file. -/
inductive BundleIo where
  | ok
  | fails (msg : String) (left : BundleFile)

/-- `save_bundle_to_file(bundle, path, for_upload=False)`; the file is opened
before the bundle is serialized. -/
def saveBundleToFile (h : HandshakeCrypto K P C) (io : BundleIo) (b : ClientPreKeyBundle) :
    EStateM Exn BundleFile Unit := do
  match io with
  | .fails msg left => do
      set left
      throw (.osError msg)
  | .ok => do
      set (SessionFile.notJson)
      let v ← lift (serializeBundlePrivate h b)
      set (SessionFile.json v)

/-- The bundle `main` goes on with, loaded or generated. -/
def loadOrGenerateBundle (h : HandshakeCrypto K P C) (identity : IdentityKeyPair)
    (gen : GeneratedKeys) (io : BundleIo) : EStateM Exn BundleFile ClientPreKeyBundle := do
  match ← get with
  | .notJson => throw (.jsonDecodeError "Expecting value")
  | .json data => lift (deserializeBundlePrivate data identity)
  | .missing => do
      let bundle ← lift (generatePrekeyBundle h identity gen none)
      saveBundleToFile h io bundle
      return bundle

/-! ## `session_init` messages -/

/-- `init.get(key, "")`. -/
def initField (init : List (String × Json)) (key : String) : Json :=
  (Odict.get? init key).getD (.str "")

/-- The padding and decoding of a key of a `session_init`. -/
def decodeInitKey : Json → Except Exn Bytes
  | .str s => b64Decode s
  | _ => .error (.typeError "key is not a string")

/-- What is read before the `try`. -/
def initKeys (init : List (String × Json)) : Except Exn (Bytes × Bytes) := do
  let idDhPub ← decodeInitKey (initField init "identity_dh_pub")
  let ephPub ← decodeInitKey (initField init "eph_pub")
  return (idDhPub, ephPub)

/-- `x3dh_responder(bundle, id_dh_pub, eph_pub, opk_id)`. -/
def respondToInit (h : HandshakeCrypto K P C) (init : List (String × Json))
    (keys : Bytes × Bytes) : EStateM Exn ClientPreKeyBundle (X3DHResult K) :=
  x3dhResponder h keys.1 keys.2 (Json.get init "opk_id_used") none none none

/-- The responder's new session: `x3dh_responder` and `create_initial_state`
inside the `try`. -/
def newSession (h : HandshakeCrypto K P C) (init : List (String × Json)) (keys : Bytes × Bytes)
    (generated : P) : EStateM Exn ClientPreKeyBundle (DoubleRatchetState K P) := do
  let result ← respondToInit h init keys
  lift (createInitialState h.toCrypto result.rootKey false none 1000 generated)

/-! ## Replies of the relay (`get_peer_bundle`, `get_peer_key`)

What comes back from `_recv_json` is a JSON value, or an exception of the
socket or of `json.loads`. -/

/-- `v == s` for a string. -/
def Json.eqStr : Json → String → Bool
  | .str t, s => t == s
  | _, _ => false

/-- The checks on the type of a reply. -/
def checkReply (request kind : String) (reply : Except Exn Json) :
    Except Exn (List (String × Json)) := do
  match ← reply with
  | .dict msg => do
      if (Json.get msg "type").eqStr "error" then
        throw (.runtimeError s!"{request} failed: %s")
      if !(Json.get msg "type").eqStr kind then
        throw (.runtimeError s!"{request} failed: %s")
      return msg
  | _ => throw (.attributeError "object has no attribute 'get'")

/-- `get_peer_bundle`. -/
def getPeerBundle (reply : Except Exn Json) : Except Exn Json := do
  let msg ← checkReply "get_bundle" "peer_bundle" reply
  return (Odict.get? msg "bundle").getD (.dict [])

/-- `get_peer_key`. -/
def getPeerKey (reply : Except Exn Json) : Except Exn Bytes := do
  let msg ← checkReply "get_peer" "peer_key" reply
  decodeInitKey (initField msg "ephemeral_pub")

/-! ## The session with the peer (`async_main`) -/

/-- `KeyExchange.derive_root_key`. -/
def deriveRootKey (a : KeyAlg K) (sharedSecret : K) : K :=
  a.hkdf sharedSecret (a.lit []) (ascii "ghostchat-kex-root") 0

/-- Save a session that was just made; the state saved is one version on. -/
def saveNew (s : SessionState) (io : SaveIo) : EStateM Exn SessionFile SessionState := fun file =>
  match saveSession io ⟨s, file⟩ with
  | .ok _ slot => .ok slot.state slot.file
  | .error e slot => .error e slot.file

/-- `load_session`, or a new session from the root key if there is none. -/
def openSession (c : Crypto Bytes Bytes Bytes) (rootKey : Bytes) (isInitiator : Bool)
    (generated : Bytes) (io : SaveIo) : EStateM Exn SessionFile SessionState := do
  match ← lift (loadSession 1000 (← get)) with
  | some s => return s
  | none => do
      let s ← lift (createInitialState c rootKey isInitiator none 1000 generated)
      saveNew s io

/-- What the outside contributes to one start: the replies of the relay, the
generated keys, how sending and saving end. -/
structure StartIo where
  bundleReply : Except Exn Json
  ephPrivate : Bytes
  sendInit : Except Exn Unit := .ok ()
  generated : Bytes
  save : SaveIo := .ok
  keyReply : Except Exn Json
  kexPrivate : Bytes
  legacyGenerated : Bytes
  legacySave : SaveIo := .ok

/-- What is sent with `send_session_init`. -/
structure SessionInit where
  identityDhPub : Bytes
  ephPub : Bytes
  opkIdUsed : Json

/-- What the relay makes of it for the peer: the sender's name goes in, the
rest is passed on. -/
def SessionInit.relayed (m : SessionInit) (fromUser : String) : List (String × Json) :=
  [("type", .str "session_init"), ("from", .str fromUser),
    ("identity_dh_pub", .str (b64Encode m.identityDhPub)),
    ("eph_pub", .str (b64Encode m.ephPub)), ("opk_id_used", m.opkIdUsed)]

/-- `x3dh_initiator` on the bundle the relay gave, with the first one-time
prekey in it, and the message for the peer. -/
def initiateX3dh (h : HandshakeCrypto K P C) (bundle : ClientPreKeyBundle) (ephPrivate : P)
    (bundleDict : Json) : Except Exn (X3DHResult K × SessionInit) := do
  let peerBundle ← PeerBundle.fromDict bundleDict
  let (result, ephPub) ← x3dhInitiator h bundle.identityDhPrivate ephPrivate peerBundle
    peerBundle.opks.head? none
  let identityDhPub ← bundle.identityDhPublic h
  return (result, { identityDhPub := identityDhPub, ephPub := ephPub,
                    opkIdUsed := result.usedOpkId })

/-- The `try` with X3DH. -/
def x3dhSession (h : HandshakeCrypto Bytes Bytes Bytes) (bundle : ClientPreKeyBundle)
    (io : StartIo) (bundleDict : Json) : EStateM Exn SessionFile SessionState := do
  let (result, _) ← lift (initiateX3dh h bundle io.ephPrivate bundleDict)
  lift io.sendInit
  openSession h.toCrypto result.rootKey true io.generated io.save

/-- The other way, once the peer's key is there. -/
def legacySession (h : HandshakeCrypto Bytes Bytes Bytes) (username peer : String) (io : StartIo)
    (peerPub : Bytes) : EStateM Exn SessionFile SessionState := do
  let secret ← lift (dhWith h.toCrypto (some io.kexPrivate) peerPub)
  openSession h.toCrypto (deriveRootKey h.toKeyAlg secret) (decide (username < peer))
    io.legacyGenerated io.legacySave

/-- `if not bundle_dict`: without the peer's key `async_main` returns 1, which
is `none` here; anything raised after that is not caught. -/
def legacyPath (h : HandshakeCrypto Bytes Bytes Bytes) (username peer : String) (io : StartIo) :
    EStateM Exn SessionFile (Option SessionState) :=
  match getPeerKey io.keyReply with
  | .error _ => pure none
  | .ok peerPub => some <$> legacySession h username peer io peerPub

/-- The engine `async_main` starts its tasks with. -/
def establishSession (h : HandshakeCrypto Bytes Bytes Bytes) (bundle : ClientPreKeyBundle)
    (username peer : String) (io : StartIo) : EStateM Exn SessionFile (Option SessionState) :=
  fun file =>
    match getPeerBundle io.bundleReply with
    | .error _ => legacyPath h username peer io file
    | .ok bundleDict =>
        if bundleDict.truthy then
          match x3dhSession h bundle io bundleDict file with
          | .ok s file' => .ok (some s) file'
          | .error _ file' => legacyPath h username peer io file'
        else legacyPath h username peer io file

/-! ## Answering a `session_init` (`handle_session_inits`) -/

/-- The responder's bundle and its session file for the sender. -/
structure InitSlot where
  bundle : ClientPreKeyBundle
  file : SessionFile

/-- The `try`: the engine that is installed if nothing raises. -/
def acceptInit (h : HandshakeCrypto Bytes Bytes Bytes) (init : List (String × Json))
    (keys : Bytes × Bytes) (generated : Bytes) (io : SaveIo) :
    EStateM Exn InitSlot SessionState := do
  let s ← zoom (·.bundle) (fun b slot => { slot with bundle := b })
    (newSession h init keys generated)
  zoom (·.file) (fun f slot => { slot with file := f }) (saveNew s io)

/-! ## One client and its bundle over time -/

/-- The part of a client that has to do with its one-time prekeys. `bundle` is
`none` while no process runs, `handling` says whether the task that answers
`session_init` messages is alive. `consumed` are the ids of the one-time
prekeys of successful `x3dh_responder` calls, newest first; it is not part of
the program. -/
structure Keeper where
  bundle : Option ClientPreKeyBundle := none
  file : BundleFile := .missing
  handling : Bool := false
  consumed : List Int := []

inductive KeeperAct where
  | start (gen : GeneratedKeys) (io : BundleIo)
  | sessionInit (init : List (String × Json))
  | stop

/-- The log after a successful call. -/
def recordConsumed (consumed : List Int) (opkIdUsed : Json) : List Int :=
  match opkIdUsed.asKey with
  | .ok (some id) => id :: consumed
  | _ => consumed

def Keeper.step (h : HandshakeCrypto K P C) (identity : IdentityKeyPair) (σ : Keeper) :
    KeeperAct → Keeper
  | .start gen io =>
      match σ.bundle with
      | some _ => σ
      | none =>
          match loadOrGenerateBundle h identity gen io σ.file with
          | .ok bundle file => { σ with bundle := some bundle, file := file, handling := true }
          | .error _ file => { σ with file := file }
  | .sessionInit init =>
      match σ.bundle, σ.handling with
      | some bundle, true =>
          match initKeys init with
          | .error _ => { σ with handling := false }
          | .ok keys =>
              match respondToInit h init keys bundle with
              | .ok _ bundle' => { σ with
                  bundle := some bundle'
                  consumed := recordConsumed σ.consumed (Json.get init "opk_id_used") }
              | .error _ bundle' => { σ with bundle := some bundle' }
      | _, _ => σ
  | .stop => { σ with bundle := none, handling := false }

end GhostChat.Ref
