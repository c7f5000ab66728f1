import GhostChat.Ref.SealedSender

/-!
# The relay (server/websocket_server.py)

One coroutine for each socket, on one event loop. Between two awaits nothing
else runs, so a step is what one handler does from one await to the next: it
takes up what `receive_text` returned and works until it awaits a send, or it
comes back from a send. Which handler goes next, what its socket receives, when
a client goes away and which sends arrive is up to the environment. A send has
its effect, if it has one, where it is called.

The name of a socket is a local variable of its handler, assigned before it is
checked. `_send_json` catches what a send raises, so no send ends a handler and
none is known to have failed. When `receive_text` raises, the loop is left by
`break` and nothing is cleaned up. Only where `json.loads` raises something
else than `JSONDecodeError` is the outer `except` reached, which forgets the
current name.

The last fields of `Relay` are no part of the program. They remember what
happened: the register requests, newest first, the session_inits that were
accepted, by number, each attempt to hand one over, and what was relayed for
whom.
-/

namespace GhostChat.Ref

open GhostChat.Lib

def errorObj (message : String) : Json :=
  .dict [("type", .str "error"), ("message", .str message)]

def peerNotFound (peer : String) : Json :=
  .dict [("type", .str "error"), ("message", .str "peer not found"), ("peer", .str peer)]

def okObj (message : String) : Json :=
  .dict [("type", .str "ok"), ("message", .str message)]

/-- What `receive_text` and `json.loads` come to. -/
inductive RelayInput where
  /-- `receive_text` raised -/
  | failed
  | tooLarge
  | invalidJson
  /-- `json.loads` raised something else: too deep, or an integer too long -/
  | raised
  | json (v : Json)

/-- Which await a handler is in. -/
inductive Phase where
  | receiving
  /-- a send after which the loop goes on -/
  | replying
  /-- the answer to a register -/
  | registering
  /-- a pending session_init, with those that come after it -/
  | delivering (rest : List (Nat × Json))
  | ended

structure Socket where
  opened : Bool := true
  username : Json := .null
  phase : Phase := .receiving

/-- A register request: the `username` that was sent, and the name, if the
answer was `ok`. -/
structure RegisterRecord where
  socket : Nat
  request : Json
  answered : Option String

/-- An attempt to hand over a session_init: to which socket, whether it got
there, and whether the socket was in the registry under the name. -/
structure HandedRecord where
  number : Nat
  name : String
  arrived : Bool
  registered : Bool

/-- A message or session_init that was forwarded or queued: its `from`, and how
the last register request of the socket it came from was answered. -/
structure RelayedRecord where
  sender : Json
  answered : Option String

structure Relay where
  connections : Odict String Nat := []
  ephemeralPubs : Odict String String := []
  bundles : Odict String (List (String × Json)) := []
  pendingInits : Odict DictKey (List (Nat × Json)) := []
  sockets : List Socket := []
  wire : List (Nat × Json × Bool) := []
  registers : List RegisterRecord := []
  accepted : List Json := []
  handed : List HandedRecord := []
  relayed : List RelayedRecord := []

namespace Relay

def isOpen (σ : Relay) (w : Nat) : Bool :=
  match σ.sockets[w]? with
  | some s => s.opened
  | none => false

/-- `_send_json`. -/
def sendJson (σ : Relay) (w : Nat) (obj : Json) (ok : Bool) : Relay :=
  { σ with wire := (w, obj, ok && σ.isOpen w) :: σ.wire }

/-- The handler of a socket goes on to its next await. -/
def goTo (σ : Relay) (w : Nat) (s : Socket) (phase : Phase) : Relay :=
  { σ with sockets := σ.sockets.set w { s with phase := phase } }

/-- A send to the handler's own socket, and on with the loop. -/
def reply (σ : Relay) (w : Nat) (s : Socket) (obj : Json) (ok : Bool) : Relay :=
  (σ.sendJson w obj ok).goTo w s .replying

/-- The name the socket has from its last register request, if that was
answered with `ok`. -/
def answeredName (σ : Relay) (w : Nat) : Option String :=
  (σ.registers.find? (·.socket = w)).bind (·.answered)

def handOver (σ : Relay) (w : Nat) (name : String) (init : Nat × Json) (ok : Bool) : Relay :=
  { σ.sendJson w init.2 ok with
    handed := ⟨init.1, name, ok && σ.isOpen w, Odict.get? σ.connections name = some w⟩ :: σ.handed }

/-! ## The requests -/

def register (σ : Relay) (w : Nat) (s : Socket) (d : List (String × Json)) (ok : Bool) : Relay :=
  let username := Json.get d "username"
  let rejected := fun (σ : Relay) (s : Socket) (message : String) =>
    { σ.reply w s (errorObj message) ok with
      registers := ⟨w, username, none⟩ :: σ.registers }
  match username with
  | .str raw =>
      if raw = "" then rejected σ { s with username := username } "missing username"
      else
        let name := strip raw
        let s := { s with username := .str name }
        if name = "" then rejected σ s "empty username"
        else
          let ephemeralPub := match Json.get d "ephemeral_pub" with
            | .str pub => pub
            | _ => ""
          ({ σ with
              connections := Odict.set σ.connections name w
              ephemeralPubs := Odict.set σ.ephemeralPubs name ephemeralPub
              registers := ⟨w, username, some name⟩ :: σ.registers }.sendJson w
            (okObj "registered") ok).goTo w s .registering
  | _ => rejected σ { s with username := username } "missing username"

def uploadBundle (σ : Relay) (w : Nat) (s : Socket) (d : List (String × Json)) (ok : Bool) :
    Relay :=
  match Json.get d "username" with
  | .str raw =>
      if raw = "" then σ.reply w s (errorObj "missing username") ok
      else if strip raw = "" then σ.reply w s (errorObj "empty username") ok
      else
        match Json.get d "bundle" with
        | .dict bundle =>
            { σ with bundles := Odict.set σ.bundles (strip raw) bundle }.reply w s
              (okObj "bundle_uploaded") ok
        | _ => σ.reply w s (errorObj "missing or invalid bundle") ok
  | _ => σ.reply w s (errorObj "missing username") ok

/-- `data.get("username") or data.get("peer")`. -/
def peerField (d : List (String × Json)) : Json :=
  let username := Json.get d "username"
  if username.truthy then username else Json.get d "peer"

def getBundle (σ : Relay) (w : Nat) (s : Socket) (d : List (String × Json)) (ok : Bool) : Relay :=
  match peerField d with
  | .str raw =>
      if raw = "" then σ.reply w s (errorObj "missing peer") ok
      else
        match Odict.get? σ.bundles (strip raw) with
        | none => σ.reply w s (peerNotFound (strip raw)) ok
        | some bundle =>
            σ.reply w s (.dict [("type", .str "peer_bundle"), ("peer", .str (strip raw)),
              ("bundle", .dict bundle)]) ok
  | _ => σ.reply w s (errorObj "missing peer") ok

def getPeer (σ : Relay) (w : Nat) (s : Socket) (d : List (String × Json)) (ok : Bool) : Relay :=
  match peerField d with
  | .str raw =>
      if raw = "" then σ.reply w s (errorObj "missing peer") ok
      else
        match Odict.has σ.connections (strip raw), Odict.get? σ.ephemeralPubs (strip raw) with
        | true, some pub =>
            σ.reply w s (.dict [("type", .str "peer_key"), ("ephemeral_pub", .str pub)]) ok
        | _, _ => σ.reply w s (peerNotFound (strip raw)) ok
  | _ => σ.reply w s (errorObj "missing peer") ok

/-- The socket registered under a key; only strings are. -/
def connection (σ : Relay) : DictKey → Option (String × Nat)
  | .str name => (Odict.get? σ.connections name).map fun w => (name, w)
  | _ => none

def sessionInit (σ : Relay) (w : Nat) (s : Socket) (d : List (String × Json)) (ok : Bool) :
    Relay :=
  let toUser := Json.get d "to"
  let identityDhPub := Json.get d "identity_dh_pub"
  let ephPub := Json.get d "eph_pub"
  if !s.username.truthy then σ.reply w s (errorObj "register first") ok
  else if !toUser.truthy || !identityDhPub.truthy || !ephPub.truthy then
    σ.reply w s (errorObj "missing session_init fields") ok
  else
    let initMsg : Json := .dict [
      ("type", .str "session_init"),
      ("from", s.username),
      ("identity_dh_pub", identityDhPub),
      ("eph_pub", ephPub),
      ("opk_id_used", Json.get d "opk_id_used")]
    match toUser.dictKey with
    | .error _ => σ.reply w s (errorObj "server error") ok
    | .ok key =>
        let init := (σ.accepted.length, initMsg)
        let σ := { σ with
          accepted := σ.accepted ++ [toUser]
          relayed := ⟨s.username, σ.answeredName w⟩ :: σ.relayed }
        match σ.connection key with
        | some (name, w') => (σ.handOver w' name init ok).goTo w s .replying
        | none => { σ with
            pendingInits := Odict.set σ.pendingInits key
              ((Odict.get? σ.pendingInits key).getD [] ++ [init]) }

def directMessage (σ : Relay) (w : Nat) (s : Socket) (d : List (String × Json)) (ok : Bool) :
    Relay :=
  if !s.username.truthy then σ.reply w s (errorObj "register first") ok
  else
    match Json.get d "to" with
    | .str raw =>
        if raw = "" then σ.reply w s (errorObj "missing 'to'") ok
        else
          match Odict.get? σ.connections (strip raw) with
          | none => σ.reply w s (peerNotFound (strip raw)) ok
          | some w' =>
              ({ σ with relayed := ⟨s.username, σ.answeredName w⟩ :: σ.relayed }.sendJson w'
                (.dict [("type", .str "msg"), ("from", s.username),
                  ("payload", (Odict.get? d "payload").getD (.str ""))]) ok).goTo w s .replying
    | _ => σ.reply w s (errorObj "missing 'to'") ok

def dispatch (σ : Relay) (w : Nat) (s : Socket) (d : List (String × Json)) (ok : Bool) : Relay :=
  match Json.get d "type" with
  | .str typ =>
      if typ = "register" then σ.register w s d ok
      else if typ = "upload_bundle" then σ.uploadBundle w s d ok
      else if typ = "get_bundle" ∨ typ = "get_peer_bundle" then σ.getBundle w s d ok
      else if typ = "get_peer" then σ.getPeer w s d ok
      else if typ = "session_init" then σ.sessionInit w s d ok
      else if typ = "msg" ∨ typ = "direct_message" then σ.directMessage w s d ok
      else σ.reply w s (.dict [("type", .str "error"), ("message", .str "unknown type"),
        ("received_type", .str typ)]) ok
  | _ => σ.reply w s (errorObj "missing or invalid type") ok

/-! ## The loop -/

/-- The handler returns, and its socket is closed. -/
def finish (σ : Relay) (w : Nat) (s : Socket) : Relay :=
  { σ with sockets := σ.sockets.set w { s with opened := false, phase := .ended } }

/-- The outer `except`. A name that is no string is in no registry, or raises
here where it cannot be looked up. -/
def cleanUp (σ : Relay) (username : Json) : Relay :=
  match username with
  | .str name =>
      if name ≠ "" ∧ Odict.has σ.connections name then { σ with
        connections := Odict.erase σ.connections name
        ephemeralPubs := Odict.erase σ.ephemeralPubs name }
      else σ
  | _ => σ

def receive (σ : Relay) (w : Nat) (s : Socket) (ok : Bool) : RelayInput → Relay
  | .failed => σ.finish w s
  | .tooLarge => σ.reply w s (errorObj "message too large") ok
  | .invalidJson => σ.reply w s (errorObj "invalid json") ok
  | .raised => (σ.cleanUp s.username).finish w s
  | .json (.dict d) => σ.dispatch w s d ok
  | .json _ => σ.reply w s (errorObj "expected json object") ok

/-- `for pending in ...`. The name is a string here: it has been registered. -/
def deliver (σ : Relay) (w : Nat) (s : Socket) (ok : Bool) : List (Nat × Json) → Relay
  | [] => σ.goTo w s .receiving
  | init :: rest =>
      match s.username with
      | .str name => (σ.handOver w name init ok).goTo w s (.delivering rest)
      | _ => σ

/-- The handler comes back from a send. -/
def resume (σ : Relay) (w : Nat) (s : Socket) (ok : Bool) : Relay :=
  match s.phase with
  | .receiving | .ended => σ
  | .replying => σ.goTo w s .receiving
  | .registering =>
      match s.username with
      | .str name =>
          { σ with pendingInits := Odict.erase σ.pendingInits (.str name) }.deliver w s ok
            ((Odict.get? σ.pendingInits (.str name)).getD [])
      | _ => σ
  | .delivering rest => σ.deliver w s ok rest

end Relay

inductive RelayAct where
  | connect
  /-- the client goes away -/
  | close (w : Nat)
  | receive (w : Nat) (input : RelayInput) (ok : Bool)
  | resume (w : Nat) (ok : Bool)

def Relay.step (σ : Relay) : RelayAct → Relay
  | .connect => { σ with sockets := σ.sockets ++ [{}] }
  | .close w =>
      match σ.sockets[w]? with
      | some s => { σ with sockets := σ.sockets.set w { s with opened := false } }
      | none => σ
  | .receive w input ok =>
      match σ.sockets[w]? with
      | some s =>
          match s.phase with
          | .receiving => σ.receive w s ok input
          | _ => σ
      | none => σ
  | .resume w ok =>
      match σ.sockets[w]? with
      | some s => σ.resume w s ok
      | none => σ

end GhostChat.Ref
