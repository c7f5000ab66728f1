import GhostChat.Ref.Relay
import GhostChat.Ref.Startup

/-!
# Several initiators and one responder

A user has uploaded a bundle. Others ask the relay for it, each in its own
time, run `x3dh_initiator` on what comes back and send a `session_init`; the
user answers these one after another with `x3dh_responder`, in whatever order
they come. Nobody but the relay sees more than one of the initiators, and the
relay keeps what was uploaded as it is.

The relay is the one of `Ref.Relay`, and what else goes on there is up to the
environment. A request is handled in one step, and its answer is what that step
puts on the wire. A `session_init` may be answered at any time after it was
sent, or never.
-/

namespace GhostChat.Ref

open GhostChat.Lib

variable {K P C : Type}

/-- The answer to a request on a socket, if there is one and it gets there. -/
def Relay.replyTo (σ : Relay) (w : Nat) (request : List (String × Json)) (ok : Bool) :
    Option Json :=
  match (σ.step (.receive w (.json (.dict request)) ok)).wire with
  | (_, obj, true) :: before => if before.length = σ.wire.length then some obj else none
  | _ => none

/-- What `get_peer_bundle` sends. -/
def bundleRequest (peer : String) : List (String × Json) :=
  [("type", .str "get_bundle"), ("username", .str peer)]

/-- The relay, the responder's bundle and its task for `session_init` messages.
`sent` are those that were not answered yet, each with the root key its
initiator has; `answers` are the root keys of both sides for each call of
`x3dh_responder`, newest first, and nothing for the responder where it raised.
-/
structure Initiators (K : Type) where
  relay : Relay
  bundle : ClientPreKeyBundle
  handling : Bool := true
  sent : List (K × List (String × Json)) := []
  answers : List (K × Option K) := []

inductive InitiatorAct (P : Type) where
  | relay (act : RelayAct)
  /-- a user with a bundle of its own asks for the responder's on socket `w` -/
  | initiate (w : Nat) (ok : Bool) (username : String) (own : ClientPreKeyBundle) (ephPrivate : P)
  | answer (i : Nat)

def Initiators.step (h : HandshakeCrypto K P C) (peer : String) (σ : Initiators K) :
    InitiatorAct P → Initiators K
  | .relay act => { σ with relay := σ.relay.step act }
  | .initiate w ok username own ephPrivate =>
      let relay := σ.relay.step (.receive w (.json (.dict (bundleRequest peer))) ok)
      match σ.relay.replyTo w (bundleRequest peer) ok with
      | none => { σ with relay := relay }
      | some reply =>
          match getPeerBundle (.ok reply) >>= initiateX3dh h own ephPrivate with
          | .error _ => { σ with relay := relay }
          | .ok (result, init) => { σ with
              relay := relay
              sent := σ.sent ++ [(result.rootKey, init.relayed username)] }
  | .answer i =>
      match σ.sent[i]?, σ.handling with
      | some (rootKey, init), true =>
          let σ := { σ with sent := σ.sent.eraseIdx i }
          match initKeys init with
          | .error _ => { σ with handling := false }
          | .ok keys =>
              match respondToInit h init keys σ.bundle with
              | .ok result bundle => { σ with
                  bundle := bundle, answers := (rootKey, some result.rootKey) :: σ.answers }
              | .error _ bundle => { σ with
                  bundle := bundle, answers := (rootKey, none) :: σ.answers }
      | _, _ => σ

end GhostChat.Ref
