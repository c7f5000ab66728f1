import GhostChat.Ref.Message

/-!
# The client between the relay and the ratchet

`SessionCrypto` (client/crypto/ratchet.py) is the older symmetric session and
`WebSocketClient` the part of `GhostChatWebSocketClient`
(client/network/websocket_client.py) that encrypts and decrypts: it holds at
most one of a session and a double ratchet, and each setter clears the other.

Two things come from outside and are arguments. How `_send_json` ends is
`socket`: it raises without a connection, and the `websockets` package may
raise at any time. What `json.loads` makes of a text is `loads`: a value, a
`JSONDecodeError`, or another exception where the text is too deep or a number
too long, and nothing below depends on which texts are which.

What the relay hands over is a JSON object with any fields whatever.
-/

namespace GhostChat.Ref

open GhostChat.Lib GhostChat.Lib.Effect

variable {K P : Type}

/-! ## `SessionCrypto` -/

def sessionMsgInfo : Bytes := ascii "ghostchat-ratchet-msg"
def sessionSalt : Bytes := ascii "ghostchat-ratchet-salt"

structure SessionCrypto (K : Type) where
  rootKey : K
  sendChainKey : K
  recvChainKey : K
  sendMessageNumber : Nat := 0
  recvMessageNumber : Nat := 0

/-- `_derive_chain_and_message_key`. -/
def deriveChainAndMessageKey (a : KeyAlg K) (chainKey : K) : K × K :=
  (a.hkdf chainKey (a.lit sessionSalt) sessionMsgInfo 0,
   a.hkdf chainKey (a.lit sessionSalt) sessionMsgInfo 1)

/-- `nonce_from_counter`: `struct.pack("<Q", counter)` and four zeros. -/
def nonceFromCounter (counter : Nat) : Except Exn Bytes :=
  match toBytesBig counter 8 with
  | .ok b => .ok (b.reverse ++ [0, 0, 0, 0])
  | .error _ => .error (.structError "argument out of range")

/-- `struct.pack(">I", n)`. -/
def packUint32 (n : Nat) : Except Exn Bytes :=
  if n < 2 ^ 32 then .ok (uint32be n) else .error (.structError "argument out of range")

def SessionCrypto.encryptMessage (c : Crypto K P Bytes) (plaintext : Bytes) :
    EStateM Exn (SessionCrypto K) Bytes := do
  let s ← get
  let keys := deriveChainAndMessageKey c.toKeyAlg s.sendChainKey
  let nonce ← lift (nonceFromCounter s.sendMessageNumber)
  let ciphertext ← lift (aeadEncrypt c keys.2 plaintext nonce [])
  let number ← lift (packUint32 s.sendMessageNumber)
  modify fun s => { s with
    sendChainKey := keys.1
    sendMessageNumber := s.sendMessageNumber + 1 }
  return number ++ nonce ++ ciphertext

def SessionCrypto.decryptMessage (c : Crypto K P Bytes) (payload : Bytes) :
    EStateM Exn (SessionCrypto K) Bytes := do
  if payload.length < 4 + 12 then throw (.valueError "payload too short")
  let s ← get
  let msgNum := fromBytesBig (payload.take 4)
  let nonce := (payload.drop 4).take 12
  let keys := deriveChainAndMessageKey c.toKeyAlg s.recvChainKey
  let plaintext ← lift (aeadDecrypt c keys.2 (payload.drop (4 + 12)) nonce [])
  modify fun s => { s with
    recvChainKey := keys.1
    recvMessageNumber := max s.recvMessageNumber (msgNum + 1) }
  return plaintext

/-! ## `GhostChatWebSocketClient` -/

structure WebSocketClient (K P : Type) where
  session : Option (SessionCrypto K) := none
  doubleRatchet : Option (DoubleRatchetState K P) := none

def WebSocketClient.setSession (session : SessionCrypto K)
    (client : WebSocketClient K P) : WebSocketClient K P :=
  { client with session := some session, doubleRatchet := none }

def WebSocketClient.setDoubleRatchet (engine : DoubleRatchetState K P)
    (client : WebSocketClient K P) : WebSocketClient K P :=
  { client with doubleRatchet := some engine, session := none }

/-- What `send_message` hands to `_send_json`. The payload of a ratchet
message is `json.dumps` of the value here. -/
structure Frame where
  toUsername : String
  payload : Json
  format : Option String := none

/-- Run a method of the engine held by the client. -/
def onEngine {α : Type} (engine : DoubleRatchetState K P) (x : Engine K P α) :
    EStateM Exn (WebSocketClient K P) α :=
  zoom (fun _ => engine) (fun e client => { client with doubleRatchet := some e }) x

/-- Run a method of the session held by the client. -/
def onSession {α : Type} (session : SessionCrypto K)
    (x : EStateM Exn (SessionCrypto K) α) : EStateM Exn (WebSocketClient K P) α :=
  zoom (fun _ => session) (fun s client => { client with session := some s }) x

def WebSocketClient.sendMessage (c : Crypto K P Bytes) (toUsername : String)
    (plaintext : Bytes) (socket : Except Exn Unit) :
    EStateM Exn (WebSocketClient K P) Frame := do
  let client ← get
  match client.doubleRatchet with
  | some engine => do
      let wire ← onEngine engine (ratchetEncrypt c plaintext)
      lift socket
      return { toUsername := toUsername, payload := wireMessageToDict wire,
               format := some "double_ratchet" }
  | none =>
      match client.session with
      | none => throw (.runtimeError "No session or double ratchet set")
      | some session => do
          let payload ← onSession session (SessionCrypto.encryptMessage c plaintext)
          lift socket
          return { toUsername := toUsername, payload := .str (b64Encode payload) }

/-- `except (json.JSONDecodeError, KeyError, TypeError): pass`. -/
def Exn.passed : Exn → Bool
  | .jsonDecodeError _ | .keyError _ | .typeError _ => true
  | _ => false

/-- `isinstance(d, dict) and "header" in d and "ciphertext" in d`. -/
def looksLikeWire : Json → Bool
  | .dict d => Odict.has d "header" && Odict.has d "ciphertext"
  | _ => false

/-- The body of the `try` in `recv_message`: the plaintext, or `none` where
the payload is not taken for a ratchet message. -/
def tryRatchet (c : Crypto K P Bytes) (loads : String → Except Exn Json)
    (payloadRaw : String) (generated : P) : Engine K P (Option Bytes) := do
  let payloadDict ← lift (loads payloadRaw)
  if looksLikeWire payloadDict then do
    let wire ← lift (wireMessageFromDict payloadDict)
    let payload ← ratchetDecrypt c wire generated
    return some payload
  else return none

/-- The `try` with its `except`: an exception that is passed over goes on
below with whatever state the engine was left in. -/
def recvRatchet (c : Crypto K P Bytes) (loads : String → Except Exn Json)
    (payloadRaw : String) (generated : P) : Engine K P (Option Bytes) := fun s =>
  match tryRatchet c loads payloadRaw generated s with
  | .ok r s' => .ok r s'
  | .error e s' => if e.passed then .ok none s' else .error e s'

/-- What `recv_message` does below the `try`: decode, and decrypt if there is
a session. -/
def recvLegacy (c : Crypto K P Bytes) (payloadRaw : String) :
    EStateM Exn (WebSocketClient K P) Bytes := do
  let payload ← lift (b64Decode payloadRaw)
  let client ← get
  match client.session with
  | some session => onSession session (SessionCrypto.decryptMessage c payload)
  | none => return payload

/-- `msg.get("from", "")`. -/
def fromUser (msg : List (String × Json)) : Json :=
  (Odict.get? msg "from").getD (.str "")

/-- `msg.get("payload", "")`. -/
def payloadOf (msg : List (String × Json)) : Json :=
  (Odict.get? msg "payload").getD (.str "")

/-- `recv_message` on the object it takes from the queue. -/
def WebSocketClient.recvMessage (c : Crypto K P Bytes)
    (loads : String → Except Exn Json) (msg : List (String × Json)) (generated : P) :
    EStateM Exn (WebSocketClient K P) (Json × Bytes) := do
  match payloadOf msg with
  | .str payloadRaw => do
      let client ← get
      let fromRatchet ← match client.doubleRatchet with
        | some engine => onEngine engine (recvRatchet c loads payloadRaw generated)
        | none => pure none
      match fromRatchet with
      | some payload => return (fromUser msg, payload)
      | none => do
          let payload ← recvLegacy c payloadRaw
          return (fromUser msg, payload)
  -- `json.loads` passes its TypeError over, and `len` or `+` raises the next.
  | _ => throw (.typeError "payload is not a string")

/-! ## The client over time -/

/-- The calls made on a client. -/
inductive ClientCall (K P : Type) where
  | setSession (session : SessionCrypto K)
  | setDoubleRatchet (engine : DoubleRatchetState K P)
  | send (toUsername : String) (plaintext : Bytes) (socket : Except Exn Unit)
  | recv (msg : List (String × Json)) (generated : P)

/-- One of the two setters. -/
def ClientCall.isSetter : ClientCall K P → Bool
  | .setSession _ | .setDoubleRatchet _ => true
  | .send .. | .recv .. => false

def WebSocketClient.call (c : Crypto K P Bytes) (loads : String → Except Exn Json)
    (client : WebSocketClient K P) : ClientCall K P → WebSocketClient K P
  | .setSession session => client.setSession session
  | .setDoubleRatchet engine => client.setDoubleRatchet engine
  | .send toUsername plaintext socket =>
      after (WebSocketClient.sendMessage c toUsername plaintext socket client)
  | .recv msg generated =>
      after (WebSocketClient.recvMessage c loads msg generated client)

end GhostChat.Ref
