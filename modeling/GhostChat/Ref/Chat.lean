import GhostChat.Ref.Dialogue
import GhostChat.Ref.Pair

/-!
# Two clients in a session, and the relay between them (client/network/websocket_client.py)

Both have registered and hold a double ratchet. `send_message` encrypts a line
and writes a frame to the socket; the handler of the socket takes the frames up
one after the other and sends each on to the socket registered under its `to`;
`run_receiver` puts what arrives into a queue, and `recv_message` takes the oldest
from there and decrypts it.

The connections keep the order of what goes through them, but a message may get
lost behind the sender's back: `_send_json` of the relay catches what a send
raises, and a frame whose text is over 2 MiB is answered with an error that no
task of the client reads.

An exception of `send_message` ends the client that called it, one of
`recv_message` is logged. `json.dumps` and `json.loads` of the payload are
arguments. `typed`, `shown` and `handed` are no part of the program: the lines
that were sent, what `recv_message` has returned, and the generated keys.
-/

namespace GhostChat.Ref

open GhostChat.Lib GhostChat.Lib.Effect

variable {K P : Type}

structure ChatConfig (K P : Type) where
  crypto : Crypto K P Bytes
  dumps : Json → String
  loads : String → Except Exn Json
  name : Party → String
  socket : Party → Nat

/-- The argument of `_send_json` in `send_message`. -/
def Frame.toDict (dumps : Json → String) (frame : Frame) : List (String × Json) :=
  [("type", .str "msg"), ("to", .str frame.toUsername)] ++
    match frame.format with
    | some format => [("payload", .str (dumps frame.payload)), ("format", .str format)]
    | none => [("payload", frame.payload)]

/-- What `run_receiver` puts into the queue of `recv_message`. -/
def queuedMsg : Json → Option (List (String × Json))
  | .dict d => if (Json.get d "type").eqStr "msg" then some d else none
  | _ => none

/-- All that was put there, oldest first. -/
def Relay.queue (σ : Relay) (w : Nat) : List (List (String × Json)) :=
  (σ.inbox w).filterMap queuedMsg

structure Chat (K P : Type) where
  relay : Relay
  client : Party → WebSocketClient K P
  /-- `sender_loop` has not raised -/
  running : Party → Bool := fun _ => true
  asked : Party → List Frame := fun _ => []
  /-- how many of its frames the relay has taken up -/
  taken : Party → Nat := fun _ => 0
  /-- how many messages it has taken from its queue -/
  heard : Party → Nat := fun _ => 0
  typed : Party → List Bytes := fun _ => []
  shown : Party → List (Json × Bytes) := fun _ => []
  handed : Party → List P

namespace Chat

/-- A line of `sender_loop`. A send that raises has sent nothing. -/
def line (cfg : ChatConfig K P) (σ : Chat K P) (who : Party) (plaintext : Bytes)
    (socket : Except Exn Unit) : Chat K P :=
  if plaintext = [] ∨ σ.running who = false then σ
  else match WebSocketClient.sendMessage cfg.crypto (cfg.name who.other) plaintext socket
      (σ.client who) with
    | .ok frame client => { σ with
        client := Function.update σ.client who client
        asked := Function.update σ.asked who (σ.asked who ++ [frame])
        typed := Function.update σ.typed who (σ.typed who ++ [plaintext]) }
    | .error _ client => { σ with
        client := Function.update σ.client who client
        running := Function.update σ.running who false }

/-- The relay's handler takes up the next frame, if it is not busy. -/
def take (cfg : ChatConfig K P) (σ : Chat K P) (who : Party) (fits ok : Bool) : Chat K P :=
  match (σ.asked who)[σ.taken who]?, σ.relay.sockets[cfg.socket who]? with
  | some frame, some s =>
      match s.phase with
      | .receiving => { σ with
          relay := σ.relay.receive (cfg.socket who) s ok
            (if fits then .json (.dict (frame.toDict cfg.dumps)) else .tooLarge)
          taken := Function.update σ.taken who (σ.taken who + 1) }
      | _ => σ
  | _, _ => σ

/-- A round of `recv_loop`, if there is a message. -/
def hear (cfg : ChatConfig K P) (σ : Chat K P) (who : Party) (generated : P) : Chat K P :=
  match σ.running who, (σ.relay.queue (cfg.socket who))[σ.heard who]? with
  | true, some msg =>
      let next := { σ with
        heard := Function.update σ.heard who (σ.heard who + 1)
        handed := Function.update σ.handed who (generated :: σ.handed who) }
      match WebSocketClient.recvMessage cfg.crypto cfg.loads msg generated (σ.client who) with
      | .ok r client => { next with
          client := Function.update σ.client who client
          shown := Function.update σ.shown who (σ.shown who ++ [r]) }
      | .error _ client => { next with client := Function.update σ.client who client }
  | _, _ => σ

/-- How many messages for `who` the relay has taken up and not passed on. -/
def lost (cfg : ChatConfig K P) (σ : Chat K P) (who : Party) : Nat :=
  σ.taken who.other - (σ.relay.queue (cfg.socket who)).length

end Chat

inductive ChatStep (P : Type) where
  | relay (act : RelayAct)
  | line (who : Party) (plaintext : Bytes) (socket : Except Exn Unit)
  | take (who : Party) (fits ok : Bool)
  | hear (who : Party) (generated : P)

def Chat.step (cfg : ChatConfig K P) (σ : Chat K P) : ChatStep P → Chat K P
  | .relay act => { σ with relay := σ.relay.step act }
  | .line who plaintext socket => σ.line cfg who plaintext socket
  | .take who fits ok => σ.take cfg who fits ok
  | .hear who generated => σ.hear cfg who generated

/-- The two have a session, as after `set_double_ratchet`. -/
def Chat.start (before : List RelayAct) (session : Pair K P Bytes) : Chat K P where
  relay := runFrom Relay.step {} before
  client := fun who => ({} : WebSocketClient K P).setDoubleRatchet (session.engine who)
  handed := session.handed

/-- Both are registered, each on its own socket, and neither has been sent a
message there. A session_init may have come, as the one of X3DH. -/
structure Connected (cfg : ChatConfig K P) (σ : Relay) : Prop where
  apart : cfg.socket .initiator ≠ cfg.socket .responder
  named : ∀ who, cfg.name who ≠ "" ∧ strip (cfg.name who) = cfg.name who
  registered : ∀ who, Odict.get? σ.connections (cfg.name who) = some (cfg.socket who)
  username : ∀ who, ∃ s, σ.sockets[cfg.socket who]? = some s ∧ s.username = .str (cfg.name who)
  unspoken : ∀ who, σ.queue (cfg.socket who) = []

/-- What the others do with the relay leaves the two registered and says nothing
to them. -/
def LeavesAlone (cfg : ChatConfig K P) (σ : Relay) (act : RelayAct) : Prop :=
  ∀ who, Elsewhere (cfg.socket who) (.relay act) ∧
    Odict.get? (σ.step act).connections (cfg.name who) = some (cfg.socket who) ∧
    ((σ.step act).inbox (cfg.socket who)).filter pushed
      = (σ.inbox (cfg.socket who)).filter pushed

/-- Lines are within the bounds of the parser and `json.loads` gives back what
`json.dumps` wrote, generated keys are new, and no more messages are lost than a
receiver can skip. -/
def Chat.Allowed (cfg : ChatConfig K P) (cap : Nat) (σ : Chat K P) : ChatStep P → Prop
  | .relay act => LeavesAlone cfg σ.relay act
  | .line who plaintext socket =>
      plaintext.length + 16 ≤ maxCiphertextLen ∧ (σ.typed who).length < 2 ^ 32 ∧
      ∀ frame ∈ (σ.line cfg who plaintext socket).asked who,
        cfg.loads (cfg.dumps frame.payload) = .ok frame.payload
  | .take _ _ _ => True
  | .hear who generated => σ.lost cfg who ≤ min cap maxSkipDistance ∧
      ∀ x, ∀ p ∈ σ.handed x, cfg.crypto.publicKey p ≠ cfg.crypto.publicKey generated

end GhostChat.Ref
