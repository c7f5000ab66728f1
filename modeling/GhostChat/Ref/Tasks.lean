import GhostChat.Ref.Startup

/-!
# The tasks of a running client (client/client.py)

Once there is an engine, three tasks share it: `handle_session_inits` puts a
new one in its place, `recv_loop` decrypts with it, `sender_loop` encrypts
with it. The engine, the peer it talks to and the file it is saved to are
three different things: `engine_ref[0]` (which is also what the client
decrypts with), `session_peer_ref[0]`, and whatever name a task has at hand
when it saves.

Tasks of one event loop change places only where they wait. The first two
wait for the next message and then run to the end of their loop's body. The
third also waits for the socket, between encrypting a line and saving the
session, so a line is two steps here.

`owner`, `decryptions` and `saves` are not part of the program. They remember
with whom the engine was set up, for each message given to the engine who had
sent it and whose engine it was, and for each session file written whose state
went into it.
-/

namespace GhostChat.Ref

open GhostChat.Lib GhostChat.Lib.Effect

/-! ## The path of a session file (`_session_path`) -/

/-- `c if c.isalnum() or c in "-_" else "_"`. The items of a string are its
characters; `isalnum` of a character is left open. -/
def safePart (isalnum : Char → Bool) : Json → Except Exn String
  | .str s =>
      if (s.toList ≠ [] ∧ s.toList.all isalnum) ∨ s ∈ ["", "-", "_", "-_"] then .ok s
      else .ok "_"
  | _ => .error (.attributeError "object has no attribute 'isalnum'")

/-- `"".join(... for c in username)`. -/
def safeName (isalnum : Char → Bool) (username : Json) : Except Exn String := do
  let parts ← (← username.iterate).mapM (safePart isalnum)
  return String.join parts

def sessionPath (isalnum : Char → Bool) (localUsername : String) (remoteUsername : Json) :
    Except Exn String := do
  let safeLocal ← safeName isalnum (.str localUsername)
  let safeRemote ← safeName isalnum remoteUsername
  return safeLocal ++ "__" ++ safeRemote ++ ".json"

/-! ## State -/

structure ClientTasks where
  username : String
  bundle : ClientPreKeyBundle
  /-- `engine_ref[0].state`, and the engine of the client -/
  engine : SessionState
  /-- `session_peer_ref[0]` -/
  sessionPeer : Json
  files : Odict String SessionFile := []
  /-- `handle_session_inits` has not raised -/
  handling : Bool := true
  /-- the `to` of a line that is being sent -/
  sending : Option Json := none
  /-- `sender_loop` has not raised -/
  running : Bool := true
  owner : Json
  decryptions : List (Json × Json) := []
  saves : List (String × Json) := []

namespace ClientTasks

def fileAt (σ : ClientTasks) (path : String) : SessionFile :=
  (Odict.get? σ.files path).getD .missing

/-- The tasks start with the engine `async_main` has set up with `peer`. -/
def start (username peer : String) (bundle : ClientPreKeyBundle) (engine : SessionState)
    (files : Odict String SessionFile) : ClientTasks :=
  { username := username, bundle := bundle, engine := engine, sessionPeer := .str peer
    files := files, owner := .str peer }

end ClientTasks

inductive TaskAct where
  | sessionInit (init : List (String × Json)) (generated : Bytes) (io : SaveIo)
  | recv (msg : List (String × Json)) (generated : Bytes) (io : SaveIo)
  | line (plaintext : Bytes)
  | sent (raises : Option Exn) (io : SaveIo)

/-! ## Steps -/

namespace ClientTasks

variable (isalnum : Char → Bool)

/-- `try: save_session(username, remote, engine_ref[0].state)`. -/
def saveAs (σ : ClientTasks) (remote : Json) (io : SaveIo) : ClientTasks :=
  match sessionPath isalnum σ.username remote with
  | .error _ => σ
  | .ok path =>
      match saveSession io ⟨σ.engine, σ.fileAt path⟩ with
      | .ok _ slot => { σ with
          engine := slot.state
          files := Odict.set σ.files path slot.file
          saves := (path, σ.owner) :: σ.saves }
      | .error _ slot => { σ with
          engine := slot.state
          files := Odict.set σ.files path slot.file }

/-- One round of `handle_session_inits`. A path that cannot be made raises in
`save_session`, after the handshake. -/
def onInit (h : HandshakeCrypto Bytes Bytes Bytes) (σ : ClientTasks)
    (init : List (String × Json)) (generated : Bytes) (io : SaveIo) : ClientTasks :=
  match initKeys init with
  | .error _ => { σ with handling := false }
  | .ok keys =>
      match sessionPath isalnum σ.username (initField init "from") with
      | .error _ => { σ with bundle := after (newSession h init keys generated σ.bundle) }
      | .ok path =>
          match acceptInit h init keys generated io ⟨σ.bundle, σ.fileAt path⟩ with
          | .error _ slot => { σ with
              bundle := slot.bundle
              files := Odict.set σ.files path slot.file }
          | .ok s slot => { σ with
              bundle := slot.bundle
              engine := s
              sessionPeer := initField init "from"
              files := Odict.set σ.files path slot.file
              owner := initField init "from"
              saves := (path, initField init "from") :: σ.saves }

end ClientTasks

/-- `recv_message` calls `ratchet_decrypt` on this. -/
def reachesEngine (loads : String → Except Exn Json) (msg : List (String × Json)) : Bool :=
  match payloadOf msg with
  | .str payloadRaw =>
      match loads payloadRaw with
      | .ok payload => looksLikeWire payload && (wireMessageFromDict payload).toBool
      | .error _ => false
  | _ => false

namespace ClientTasks

variable (isalnum : Char → Bool)

/-- `recv_message`: the engine after it, and the sender if it returned. -/
def receive (h : HandshakeCrypto Bytes Bytes Bytes) (loads : String → Except Exn Json)
    (σ : ClientTasks) (msg : List (String × Json)) (generated : Bytes) :
    ClientTasks × Option Json :=
  let tried := if reachesEngine loads msg then (fromUser msg, σ.owner) :: σ.decryptions
    else σ.decryptions
  match WebSocketClient.recvMessage h.toCrypto loads msg generated
      { doubleRatchet := some σ.engine } with
  | .ok r client =>
      ({ σ with engine := client.doubleRatchet.getD σ.engine, decryptions := tried }, some r.1)
  | .error _ client =>
      ({ σ with engine := client.doubleRatchet.getD σ.engine, decryptions := tried }, none)

/-- One round of `recv_loop`. -/
def onRecv (h : HandshakeCrypto Bytes Bytes Bytes) (loads : String → Except Exn Json)
    (σ : ClientTasks) (msg : List (String × Json)) (generated : Bytes) (io : SaveIo) :
    ClientTasks :=
  match σ.receive h loads msg generated with
  | (σ', some fromUser) => σ'.saveAs isalnum fromUser io
  | (σ', none) => σ'

/-- `sender_loop` up to the socket: the line goes to `session_peer_ref[0]`, an
empty one to nobody. -/
def onLine (h : HandshakeCrypto Bytes Bytes Bytes) (σ : ClientTasks) (plaintext : Bytes) :
    ClientTasks :=
  if plaintext = [] then σ
  else match ratchetEncrypt h.toCrypto plaintext σ.engine with
    | .ok _ s => { σ with engine := s, sending := some σ.sessionPeer }
    | .error _ s => { σ with engine := s, running := false }

/-- `sender_loop` behind the socket. -/
def onSent (σ : ClientTasks) (remote : Json) (raises : Option Exn) (io : SaveIo) : ClientTasks :=
  match raises with
  | some _ => { σ with sending := none, running := false }
  | none => { σ with sending := none }.saveAs isalnum remote io

def step (h : HandshakeCrypto Bytes Bytes Bytes) (loads : String → Except Exn Json)
    (σ : ClientTasks) (act : TaskAct) : ClientTasks :=
  if !σ.running then σ
  else match act with
    | .sessionInit init generated io =>
        if σ.handling then σ.onInit isalnum h init generated io else σ
    | .recv msg generated io => σ.onRecv isalnum h loads msg generated io
    | .line plaintext =>
        match σ.sending with
        | some _ => σ
        | none => σ.onLine h plaintext
    | .sent raises io =>
        match σ.sending with
        | some remote => σ.onSent isalnum remote raises io
        | none => σ

end ClientTasks

end GhostChat.Ref
