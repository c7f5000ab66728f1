import GhostChat.Ref.Relay
import GhostChat.Ref.Startup
import Mathlib.Data.List.ReduceOption

/-!
# The start of a client at the relay (client/client.py, client/network/websocket_client.py)

Before it starts the task that receives, `async_main` asks the relay a few
questions: it registers, uploads its bundle, fetches the peer's, and where that
comes to nothing the peer's key. A question is a send and then one `_recv_json`,
and the next message of the socket is taken for the answer.

The relay's handler of the socket takes the requests up one after the other. What
else it and the other handlers write to the socket, and when, is the relay's and
the environment's affair, as in `Relay.step`; a client that reads is a step of its
own. `answers` is no part of the program: it is what the handler said to each
request it took up.
-/

namespace GhostChat.Ref

open GhostChat.Lib GhostChat.Lib.Effect

/-! ## Requests -/

/-- What the client sends in its start. -/
inductive Request where
  | register
  | uploadBundle (bundleDict : Json)
  | getBundle
  | sessionInit (m : SessionInit)
  | getPeer

/-- What a start depends on but the relay. -/
structure StartConfig where
  h : HandshakeCrypto Bytes Bytes Bytes
  bundle : ClientPreKeyBundle
  username : String
  peer : String
  io : StartIo

def Request.toDict (cfg : StartConfig) : Request → List (String × Json)
  | .register => [("type", .str "register"), ("username", .str cfg.username),
      ("ephemeral_pub", .str (b64Encode (cfg.h.publicKey cfg.io.kexPrivate)))]
  | .uploadBundle bundleDict => [("type", .str "upload_bundle"), ("username", .str cfg.username),
      ("bundle", bundleDict)]
  | .getBundle => [("type", .str "get_bundle"), ("username", .str cfg.peer)]
  | .sessionInit m => [("type", .str "session_init"), ("to", .str cfg.peer),
      ("identity_dh_pub", .str (b64Encode m.identityDhPub)),
      ("eph_pub", .str (b64Encode m.ephPub)), ("opk_id_used", m.opkIdUsed)]
  | .getPeer => [("type", .str "get_peer"), ("username", .str cfg.peer)]

/-- The check of the reply in `register` and `upload_bundle`. -/
def checkDone (failed kind : String) : Json → Except Exn Unit
  | .dict msg => do
      if (Json.get msg "type").eqStr "error" then
        throw (.runtimeError failed)
      if !(Json.get msg "type").eqStr kind
          && !((Json.get msg "type").eqStr "ok" && (Json.get msg "message").eqStr kind) then
        throw (.runtimeError failed)
  | _ => throw (.attributeError "object has no attribute 'get'")

/-! ## The two ends of the socket -/

/-- What has arrived at a socket, oldest first. -/
def Relay.inbox (σ : Relay) (w : Nat) : List Json :=
  (σ.wire.reverse.filter fun e => e.1 == w && e.2.2).map (·.2.1)

/-- A message that answers no request: it is pushed to the socket. -/
def pushed : Json → Bool
  | .dict d => (Json.get d "type").eqStr "session_init" || (Json.get d "type").eqStr "msg"
  | _ => false

/-- What the relay says to a `get_bundle`. -/
def Relay.bundleOf (σ : Relay) (peer : String) : Json :=
  match Odict.get? σ.bundles (strip peer) with
  | none => peerNotFound (strip peer)
  | some bundle => .dict [("type", .str "peer_bundle"), ("peer", .str (strip peer)),
      ("bundle", .dict bundle)]

/-- What it says to a `get_peer`. -/
def Relay.keyOf (σ : Relay) (peer : String) : Json :=
  match Odict.has σ.connections (strip peer), Odict.get? σ.ephemeralPubs (strip peer) with
  | true, some pub => .dict [("type", .str "peer_key"), ("ephemeral_pub", .str pub)]
  | _, _ => peerNotFound (strip peer)

/-- The answer to a request in a state of the relay; a session_init has none. -/
def Relay.answer (σ : Relay) (cfg : StartConfig) : Request → Option Json
  | .register => some (okObj "registered")
  | .uploadBundle _ => some (okObj "bundle_uploaded")
  | .getBundle => some (σ.bundleOf cfg.peer)
  | .sessionInit _ => none
  | .getPeer => some (σ.keyOf cfg.peer)

/-! ## `async_main` up to its tasks -/

inductive Stage where
  | registering
  | uploading
  | fetching
  | fetchingKey
  /-- the session is there, the tasks are started -/
  | chatting (s : SessionState)
  /-- 1 was returned, or an exception ended the program -/
  | stopped

/-- The relay, and a client on one of its sockets. -/
structure Dialogue where
  relay : Relay
  file : SessionFile
  stage : Stage := .registering
  asked : List Request := [.register]
  /-- how many of the requests the handler has taken up -/
  taken : Nat := 0
  replies : List Json := []
  answers : List (Option Json) := []

/-- The session_init that is sent before anything else of the `try` raises. -/
def sentInits (cfg : StartConfig) (bundleDict : Json) : List Request :=
  match initiateX3dh cfg.h cfg.bundle cfg.io.ephPrivate bundleDict, cfg.io.sendInit with
  | .ok (_, m), .ok _ => [.sessionInit m]
  | _, _ => []

namespace Dialogue

/-- `if not bundle_dict`. -/
def askKey (σ : Dialogue) : Dialogue :=
  { σ with stage := .fetchingKey, asked := σ.asked ++ [.getPeer] }

/-- With the reply to `get_bundle`. -/
def fetched (cfg : StartConfig) (σ : Dialogue) (reply : Json) : Dialogue :=
  match getPeerBundle (.ok reply) with
  | .error _ => σ.askKey
  | .ok bundleDict =>
      if bundleDict.truthy then
        let asked := σ.asked ++ sentInits cfg bundleDict
        match x3dhSession cfg.h cfg.bundle cfg.io bundleDict σ.file with
        | .ok s file => { σ with stage := .chatting s, file := file, asked := asked }
        | .error _ file => { σ with file := file, asked := asked }.askKey
      else σ.askKey

/-- With the reply to `get_peer`. -/
def fetchedKey (cfg : StartConfig) (σ : Dialogue) (reply : Json) : Dialogue :=
  match legacyPath cfg.h cfg.username cfg.peer { cfg.io with keyReply := .ok reply } σ.file with
  | .ok (some s) file => { σ with stage := .chatting s, file := file }
  | .ok none file | .error _ file => { σ with stage := .stopped, file := file }

/-- What the client does with the message it has waited for. -/
def hear (cfg : StartConfig) (σ : Dialogue) (reply : Json) : Dialogue :=
  match σ.stage with
  | .registering =>
      match checkDone "Registration failed: %s" "registered" reply,
          serializeBundlePublic cfg.h cfg.bundle with
      | .ok _, .ok bundleDict =>
          { σ with stage := .uploading, asked := σ.asked ++ [.uploadBundle bundleDict] }
      | _, _ => { σ with stage := .stopped }
  | .uploading =>
      match checkDone "Bundle upload failed: %s" "bundle_uploaded" reply with
      | .ok _ => { σ with stage := .fetching, asked := σ.asked ++ [.getBundle] }
      | .error _ => { σ with stage := .stopped }
  | .fetching => σ.fetched cfg reply
  | .fetchingKey => σ.fetchedKey cfg reply
  | .chatting _ | .stopped => σ

/-- The client waits for an answer. -/
def waits (σ : Dialogue) : Bool :=
  match σ.stage with
  | .registering | .uploading | .fetching | .fetchingKey => true
  | .chatting _ | .stopped => false

/-- The handler takes up the next request, if there is one and it is not busy. -/
def take (cfg : StartConfig) (w : Nat) (σ : Dialogue) (ok : Bool) : Dialogue :=
  match σ.asked[σ.taken]?, σ.relay.sockets[w]? with
  | some request, some s =>
      match s.phase with
      | .receiving => { σ with
          relay := σ.relay.receive w s ok (.json (.dict (request.toDict cfg)))
          taken := σ.taken + 1
          answers := σ.answers ++ [σ.relay.answer cfg request] }
      | _ => σ
  | _, _ => σ

/-- The client reads the next message, if it waits for one and there is one. -/
def read (cfg : StartConfig) (w : Nat) (σ : Dialogue) : Dialogue :=
  match σ.waits, (σ.relay.inbox w)[σ.replies.length]? with
  | true, some reply => { σ with replies := σ.replies ++ [reply] }.hear cfg reply
  | _, _ => σ

end Dialogue

inductive DialogueAct where
  | relay (act : RelayAct)
  | take (ok : Bool)
  | read

def Dialogue.step (cfg : StartConfig) (w : Nat) (σ : Dialogue) : DialogueAct → Dialogue
  | .relay act => { σ with relay := σ.relay.step act }
  | .take ok => σ.take cfg w ok
  | .read => σ.read cfg w

/-- What the relay has been through, and then a client connects. -/
def Dialogue.start (before : List RelayAct) (file : SessionFile) : Dialogue where
  relay := (runFrom Relay.step {} before).step .connect
  file := file

/-- The socket of that client. -/
def clientSocket (before : List RelayAct) : Nat := (runFrom Relay.step {} before).sockets.length

/-- The other handlers do what they do. The client's own socket receives nothing
but its requests, and stays open. -/
def Elsewhere (w : Nat) : DialogueAct → Prop
  | .relay (.receive v _ _) | .relay (.close v) => v ≠ w
  | .relay .connect | .relay (.resume _ _) | .take _ | .read => True

/-- All that was sent to the socket has arrived. -/
def Arrived (w : Nat) (σ : Relay) : Prop := ∀ e ∈ σ.wire, e.1 = w → e.2.2 = true

/-- The client's connection lasts. -/
def Lasts (cfg : StartConfig) (w : Nat) (σ : Dialogue) (act : DialogueAct) : Prop :=
  Elsewhere w act ∧ Arrived w (σ.step cfg w act).relay

/-- What the client comes to: a session, or nothing. -/
def Dialogue.outcome (σ : Dialogue) : Option SessionState :=
  match σ.stage with
  | .chatting s => some s
  | .registering | .uploading | .fetching | .fetchingKey | .stopped => none

/-- What it comes to with these answers to `get_bundle` and `get_peer`. -/
def startWith (cfg : StartConfig) (bundleReply keyReply : Json) (file : SessionFile) :
    Option SessionState :=
  match serializeBundlePublic cfg.h cfg.bundle with
  | .error _ => none
  | .ok _ => (value? (establishSession cfg.h cfg.bundle cfg.username cfg.peer
      { cfg.io with bundleReply := .ok bundleReply, keyReply := .ok keyReply } file)).join

/-- The answers to all requests taken up that have one. -/
def Dialogue.told (σ : Dialogue) : List Json := σ.answers.reduceOption

end GhostChat.Ref
