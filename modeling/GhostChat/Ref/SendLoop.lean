import GhostChat.Lib.Run
import GhostChat.Ref.Client
import GhostChat.Ref.SessionStore

/-!
# The send loop and its session file (client/client.py)

`sender_loop` reads a line, hands it to `send_message` and then saves the
session; a save that raises is logged and forgotten. The process may stop
between any two of these steps. An exception of `send_message` is not caught
in the loop and ends the process too. Starting again loads the session file.

`wire` is what a listener saw, with the AEAD key and nonce of each message
next to its plaintext, newest first. `unsaved` remembers whether a message has
gone out since the file was last written. Neither is part of the program.
-/

namespace GhostChat.Ref

open GhostChat.Lib GhostChat.Lib.Effect

/-- A message somebody on the network has seen. -/
structure WireRecord where
  plaintext : Bytes
  key : Bytes
  nonce : Bytes
  deriving DecidableEq, Repr

/-- What `_send_json` came to: whether the message went out, and what was
raised. The two are independent, a connection may break while it is sent. -/
structure SocketOutcome where
  onWire : Bool := true
  raises : Option Exn := none

/-- One client with one session. `engine` is `none` while no process runs;
`saving` is the place in the loop, between `send_message` and
`save_session`. -/
structure Device where
  engine : Option SessionState
  file : SessionFile
  saving : Bool := false
  wire : List WireRecord := []
  unsaved : Bool := false

inductive LoopAct where
  | line (plaintext : Bytes) (socket : SocketOutcome)
  | save (io : SaveIo)
  | crash
  | restart

/-- `await client.send_message(to, line.encode("utf-8"))` on a line that has
been read and stripped; an empty one is not sent. -/
def Device.sendLine (c : Crypto Bytes Bytes Bytes) (σ : Device) (plaintext : Bytes)
    (socket : SocketOutcome) (s : SessionState) : Device :=
  if plaintext = [] then σ
  else match ratchetEncryptKeyed c plaintext s with
    | .error _ _ => { σ with engine := none }
    | .ok (w, key) s' =>
        let sent := { σ with
          wire := if socket.onWire then ⟨plaintext, key, w.nonce⟩ :: σ.wire else σ.wire
          unsaved := σ.unsaved || socket.onWire }
        match socket.raises with
        | some _ => { sent with engine := none }
        | none => { sent with engine := some s', saving := true }

/-- `try: save_session(...) except Exception`. -/
def Device.saveStep (σ : Device) (io : SaveIo) (s : SessionState) : Device :=
  match saveSession io ⟨s, σ.file⟩ with
  | .ok _ slot => { σ with
      engine := some slot.state, file := slot.file, saving := false, unsaved := false }
  | .error _ slot => { σ with engine := some slot.state, file := slot.file, saving := false }

def Device.step (c : Crypto Bytes Bytes Bytes) (maxSkippedKeys : Nat) (σ : Device) :
    LoopAct → Device
  | .line plaintext socket =>
      match σ.engine, σ.saving with
      | some s, false => σ.sendLine c plaintext socket s
      | _, _ => σ
  | .save io =>
      match σ.engine, σ.saving with
      | some s, true => σ.saveStep io s
      | _, _ => σ
  | .crash => { σ with engine := none, saving := false }
  | .restart =>
      match σ.engine with
      | some _ => σ
      | none =>
          match loadSession maxSkippedKeys σ.file with
          | .ok (some s) => { σ with engine := some s, saving := false }
          | _ => σ

/-- The loop right after start-up: the engine is the session in the file. -/
def Device.start (s : SessionState) (file : Json) : Device :=
  { engine := some s, file := .json file }

def Device.run (c : Crypto Bytes Bytes Bytes) (maxSkippedKeys : Nat) (σ : Device)
    (acts : List LoopAct) : Device := runFrom (Device.step c maxSkippedKeys) σ acts

end GhostChat.Ref
