import GhostChat.Proofs.Receive
import GhostChat.Ref.Tasks

/-!
# Whose engine, whose file

The client has one engine. A `session_init` of anybody's replaces it, and with
it the peer that lines go to; nothing is remembered of the peer before. A
message is given to the engine there is, whoever sent it, and afterwards the
engine's state is saved under the sender's name. A line is saved under the
name it was sent to, but with the engine that is there by then.

So peers are kept apart only as long as there is one of them at a time:
messages come from the peer of the engine, and no other peer's `session_init`
comes in between a line and its saving. Under those conditions the invariant
is that `session_peer_ref[0]` names the owner of the engine.

Two names may share a session file. That is no matter of interleaving, and
the condition on names keeps it out.
-/

namespace GhostChat.Proofs

open GhostChat.Lib GhostChat.Lib.Effect GhostChat.Ref

variable {isalnum : Char → Bool} {h : HandshakeCrypto Bytes Bytes Bytes}
  {loads : String → Except Exn Json} {σ : ClientTasks}

/-! ## What is promised and what is asked -/

/-- Every message given to an engine came from the peer of that engine, and
what was written to the session file of a peer was the state of the session
with that peer. -/
structure Isolated (isalnum : Char → Bool) (σ : ClientTasks) : Prop where
  decryptions : ∀ sender owner, (sender, owner) ∈ σ.decryptions → sender = owner
  saves : ∀ path owner, (path, owner) ∈ σ.saves → ∀ peer : String,
    sessionPath isalnum σ.username (.str peer) = .ok path → owner = .str peer

/-- No other name has the session file of this one. -/
def OwnFile (isalnum : Char → Bool) (username : String) (remote : Json) : Prop :=
  ∀ path, sessionPath isalnum username remote = .ok path → ∀ peer : String,
    sessionPath isalnum username (.str peer) = .ok path → remote = .str peer

/-- One peer at a time: a message comes from the current peer, and a line is
saved while the peer it went to is still the current one. -/
def OnePeer (isalnum : Char → Bool) (σ : ClientTasks) : TaskAct → Prop
  | .sessionInit init _ _ => OwnFile isalnum σ.username (initField init "from")
  | .recv msg _ _ => fromUser msg = σ.sessionPeer
  | .line _ => True
  | .sent _ _ => ∀ remote, σ.sending = some remote → remote = σ.sessionPeer

structure Apart (isalnum : Char → Bool) (σ : ClientTasks) : Prop
    extends Isolated isalnum σ where
  current : σ.sessionPeer = σ.owner
  own : OwnFile isalnum σ.username σ.owner

/-! ## Steps -/

/-- A state in which only the program's own fields differ. -/
structure SameOwner (σ σ' : ClientTasks) : Prop where
  username : σ'.username = σ.username
  sessionPeer : σ'.sessionPeer = σ.sessionPeer
  owner : σ'.owner = σ.owner
  decryptions : σ'.decryptions = σ.decryptions
  saves : σ'.saves = σ.saves

theorem Apart.same {σ' : ClientTasks} (hσ : Apart isalnum σ) (hs : SameOwner σ σ') :
    Apart isalnum σ' := by
  refine ⟨⟨?_, ?_⟩, ?_, ?_⟩
  · rw [hs.decryptions]
    exact hσ.decryptions
  · rw [hs.saves, hs.username]
    exact hσ.saves
  · rw [hs.sessionPeer, hs.owner]
    exact hσ.current
  · rw [hs.username, hs.owner]
    exact hσ.own

/-- Saving under the name of the engine's owner. -/
theorem Apart.saveAs (hσ : Apart isalnum σ) {remote : Json} (hremote : remote = σ.sessionPeer)
    (io : SaveIo) : Apart isalnum (σ.saveAs isalnum remote io) := by
  subst hremote
  simp only [ClientTasks.saveAs]
  cases hpath : sessionPath isalnum σ.username σ.sessionPeer with
  | error e => exact hσ
  | ok path =>
      simp only
      cases hsave : saveSession io ⟨σ.engine, σ.fileAt path⟩ with
      | error e slot => exact hσ.same ⟨rfl, rfl, rfl, rfl, rfl⟩
      | ok u slot =>
          refine ⟨⟨hσ.decryptions, fun path' owner hmem peer hpeer => ?_⟩, hσ.current, hσ.own⟩
          rcases List.mem_cons.mp hmem with heq | hmem
          · cases heq
            rw [hσ.current] at hpath
            exact hσ.own path hpath peer hpeer
          · exact hσ.saves path' owner hmem peer hpeer

theorem Apart.onInit (hσ : Apart isalnum σ) {init : List (String × Json)}
    (hown : OwnFile isalnum σ.username (initField init "from")) (generated : Bytes)
    (io : SaveIo) : Apart isalnum (σ.onInit isalnum h init generated io) := by
  simp only [ClientTasks.onInit]
  cases hkeys : initKeys init with
  | error e => exact hσ.same ⟨rfl, rfl, rfl, rfl, rfl⟩
  | ok keys =>
      simp only
      cases hpath : sessionPath isalnum σ.username (initField init "from") with
      | error e => exact hσ.same ⟨rfl, rfl, rfl, rfl, rfl⟩
      | ok path =>
          simp only
          cases haccept : acceptInit h init keys generated io ⟨σ.bundle, σ.fileAt path⟩ with
          | error e slot => exact hσ.same ⟨rfl, rfl, rfl, rfl, rfl⟩
          | ok s slot =>
              refine ⟨⟨hσ.decryptions, fun path' owner hmem peer hpeer => ?_⟩, rfl, hown⟩
              rcases List.mem_cons.mp hmem with heq | hmem
              · cases heq
                exact hown path hpath peer hpeer
              · exact hσ.saves path' owner hmem peer hpeer

/-- Past the ratchet there are two ways to return, and both name the sender. -/
theorem returned_sender {c : Crypto Bytes Bytes Bytes} {sender : Json} {text : String}
    {ratchet : Option Bytes} {client client' : WebSocketClient Bytes Bytes} {r : Json × Bytes}
    (hok : (match ratchet with
      | some payload => pure (sender, payload)
      | none => do
          let payload ← recvLegacy c text
          return (sender, payload) :
      EStateM Exn (WebSocketClient Bytes Bytes) (Json × Bytes)) client = .ok r client') :
    r.1 = sender := by
  cases ratchet with
  | some payload =>
      cases hok
      rfl
  | none =>
      obtain ⟨payload, client₁, -, hok⟩ := bind_ok hok
      cases hok
      rfl

/-- `recv_message` returns the sender it was given. -/
theorem recvMessage_sender {c : Crypto Bytes Bytes Bytes} {msg : List (String × Json)}
    {generated : Bytes} {client client' : WebSocketClient Bytes Bytes} {r : Json × Bytes}
    (hok : WebSocketClient.recvMessage c loads msg generated client = .ok r client') :
    r.1 = fromUser msg := by
  by_cases htext : ∃ text, payloadOf msg = .str text
  · obtain ⟨text, htext⟩ := htext
    simp only [WebSocketClient.recvMessage, htext] at hok
    obtain ⟨_, _, hget, hok⟩ := bind_ok hok
    cases hget
    cases hratchet : client.doubleRatchet with
    | some engine =>
        simp only [hratchet] at hok
        obtain ⟨ratchet, client₁, -, hok⟩ := bind_ok hok
        exact returned_sender hok
    | none =>
        simp only [hratchet] at hok
        obtain ⟨ratchet, client₁, -, hok⟩ := bind_ok hok
        exact returned_sender hok
  · obtain ⟨e, he⟩ : ∃ e, WebSocketClient.recvMessage c loads msg generated client
        = .error e client := recvMessage_not_text (not_exists.mp htext)
    rw [he] at hok
    cases hok

theorem Apart.onRecv (hσ : Apart isalnum σ) {msg : List (String × Json)}
    (hfrom : fromUser msg = σ.sessionPeer) (generated : Bytes) (io : SaveIo) :
    Apart isalnum (σ.onRecv isalnum h loads msg generated io) := by
  have htried : ∀ sender owner, (sender, owner) ∈ (if reachesEngine loads msg
      then (fromUser msg, σ.owner) :: σ.decryptions else σ.decryptions) → sender = owner := by
    intro sender owner hmem
    split at hmem
    · rcases List.mem_cons.mp hmem with heq | hmem
      · cases heq
        exact hfrom.trans hσ.current
      · exact hσ.decryptions sender owner hmem
    · exact hσ.decryptions sender owner hmem
  have hseen : ∀ engine, Apart isalnum { σ with
      engine := engine
      decryptions := if reachesEngine loads msg then (fromUser msg, σ.owner) :: σ.decryptions
        else σ.decryptions } :=
    fun engine => ⟨⟨htried, hσ.saves⟩, hσ.current, hσ.own⟩
  simp only [ClientTasks.onRecv, ClientTasks.receive]
  cases hr : WebSocketClient.recvMessage h.toCrypto loads msg generated
      { doubleRatchet := some σ.engine } with
  | error e client => exact hseen _
  | ok r client => exact (hseen _).saveAs ((recvMessage_sender hr).trans hfrom) io

theorem Apart.onLine (hσ : Apart isalnum σ) (plaintext : Bytes) :
    Apart isalnum (σ.onLine h plaintext) := by
  simp only [ClientTasks.onLine]
  split
  · exact hσ
  · cases ratchetEncrypt h.toCrypto plaintext σ.engine with
    | ok w s => exact hσ.same ⟨rfl, rfl, rfl, rfl, rfl⟩
    | error e s => exact hσ.same ⟨rfl, rfl, rfl, rfl, rfl⟩

theorem Apart.onSent (hσ : Apart isalnum σ) {remote : Json} (hremote : remote = σ.sessionPeer)
    (raises : Option Exn) (io : SaveIo) :
    Apart isalnum (σ.onSent isalnum remote raises io) := by
  have hidle : Apart isalnum { σ with sending := none } := hσ.same ⟨rfl, rfl, rfl, rfl, rfl⟩
  cases raises with
  | some e => exact hσ.same ⟨rfl, rfl, rfl, rfl, rfl⟩
  | none => exact hidle.saveAs hremote io

theorem Apart.step (hσ : Apart isalnum σ) {act : TaskAct} (hact : OnePeer isalnum σ act) :
    Apart isalnum (σ.step isalnum h loads act) := by
  simp only [ClientTasks.step]
  split
  · exact hσ
  · cases act with
    | sessionInit init generated io =>
        simp only
        split
        · exact hσ.onInit hact generated io
        · exact hσ
    | recv msg generated io => exact hσ.onRecv hact generated io
    | line plaintext =>
        simp only
        cases hsending : σ.sending with
        | some remote => exact hσ
        | none => exact hσ.onLine plaintext
    | sent raises io =>
        simp only
        cases hsending : σ.sending with
        | some remote => exact hσ.onSent (hact remote hsending) raises io
        | none => exact hσ

/-- For any interleaving of `session_init` messages, incoming messages and
lines, with any number of peers: if every message comes from the current peer,
no other peer gets in between a line and its saving, and no peer shares its
session file with another name, then every message is given to the engine of
its sender only, and every session file gets the state of its own session
only. -/
theorem peers_isolated {username peer : String}
    (hpeer : OwnFile isalnum username (.str peer)) (bundle : ClientPreKeyBundle)
    (engine : SessionState) (files : Odict String SessionFile) {acts : List TaskAct}
    (hrun : Along (ClientTasks.step isalnum h loads) (OnePeer isalnum)
      (ClientTasks.start username peer bundle engine files) acts) :
    Isolated isalnum (runFrom (ClientTasks.step isalnum h loads)
      (ClientTasks.start username peer bundle engine files) acts) := by
  have hstart : Apart isalnum (ClientTasks.start username peer bundle engine files) :=
    ⟨⟨nofun, nofun⟩, rfl, hpeer⟩
  exact (hrun.invariant (fun σ act hσ hact => hσ.step hact) hstart).toIsolated

/-! ## Names with a file of their own -/

/-- What becomes of a character in a file name. -/
def safeChar (isalnum : Char → Bool) (ch : Char) : Char :=
  if isalnum ch ∨ ch = '-' ∨ ch = '_' then ch else '_'

theorem singleton_kept (ch : Char) :
    String.singleton ch ∈ ["", "-", "_", "-_"] ↔ ch = '-' ∨ ch = '_' := by
  simp only [List.mem_cons, List.not_mem_nil, or_false, ← String.toList_inj,
    String.toList_singleton]
  simp

theorem safePart_char (ch : Char) :
    safePart isalnum (.str (String.singleton ch))
      = .ok (String.singleton (safeChar isalnum ch)) := by
  simp only [safePart, String.toList_singleton, singleton_kept, safeChar]
  by_cases hch : isalnum ch = true ∨ ch = '-' ∨ ch = '_'
  · rw [if_pos hch, if_pos (by simpa using hch)]
  · rw [if_neg hch, if_neg (by simpa using hch)]
    rfl

theorem mapM_safePart (chars : List Char) :
    (chars.map fun ch => Json.str (String.singleton ch)).mapM (safePart isalnum)
      = .ok (chars.map fun ch => String.singleton (safeChar isalnum ch)) := by
  induction chars with
  | nil => rfl
  | cons ch chars ih =>
      rw [List.map_cons, List.mapM_cons, safePart_char, except_ok_bind, ih, except_ok_bind]
      rfl

theorem safeName_str (name : String) :
    safeName isalnum (.str name) = .ok (String.ofList (name.toList.map (safeChar isalnum))) := by
  have hjoin : String.join (name.toList.map fun ch => String.singleton (safeChar isalnum ch))
      = String.ofList (name.toList.map (safeChar isalnum)) := by
    rw [← String.toList_inj, String.toList_join, String.toList_ofList]
    induction name.toList with
    | nil => rfl
    | cons ch chars ih =>
        rw [List.map_cons, List.flatMap_cons, ih, String.toList_singleton, List.map_cons]
        rfl
  rw [safeName, Json.iterate, except_ok_bind, mapM_safePart, except_ok_bind, hjoin]
  rfl

theorem sessionPath_str (username name : String) :
    sessionPath isalnum username (.str name)
      = .ok (String.ofList (username.toList.map (safeChar isalnum)) ++ "__"
        ++ String.ofList (name.toList.map (safeChar isalnum)) ++ ".json") := by
  rw [sessionPath, safeName_str, except_ok_bind, safeName_str]
  rfl

/-- A name whose characters are kept, and none of which is the replacement
character, has a file of its own. -/
theorem ownFile_of_plain {name : String}
    (hplain : ∀ ch ∈ name.toList, safeChar isalnum ch = ch ∧ ch ≠ '_') (username : String) :
    OwnFile isalnum username (.str name) := by
  intro path hpath peer hpeer
  rw [sessionPath_str] at hpath hpeer
  cases hpath
  have hpaths := congrArg String.toList (Except.ok.inj hpeer)
  simp only [String.toList_append, String.toList_ofList] at hpaths
  have hnames : peer.toList.map (safeChar isalnum) = name.toList.map (safeChar isalnum) :=
    List.append_cancel_left (List.append_cancel_right hpaths)
  have hname : name.toList.map (safeChar isalnum) = name.toList :=
    (List.map_congr_left fun ch hch => (hplain ch hch).1).trans (List.map_id _)
  have hpeer' : peer.toList.map (safeChar isalnum) = peer.toList := by
    refine (List.map_congr_left fun ch hch => ?_).trans (List.map_id _)
    have hmem : safeChar isalnum ch ∈ name.toList := by
      rw [← hname, ← hnames]
      exact List.mem_map_of_mem hch
    have hkept := (hplain _ hmem).2
    rw [safeChar] at hkept ⊢
    split at hkept
    · next hsafe => rw [if_pos hsafe, id]
    · exact absurd rfl hkept
  rw [String.toList_inj.mp (hpeer'.symm.trans (hnames.trans hname))]

/-! ## Two peers -/

/-- Bob's session, as Alice saved it. -/
def bobSession : SessionState := { sampleState true with sessionVersion := 2 }

def sampleTasks : ClientTasks :=
  .start "alice" "bob" (sampleBundle 1) bobSession
    [("alice__bob.json", .json (stateToDict bobSession))]

/-- Somebody else wants to talk to Alice. -/
def eveInit : List (String × Json) :=
  SessionInit.relayed ⟨mix (mix [3, 2]), mix (mix [21]), .int 1000⟩ "eve"

/-- No text is JSON. -/
def noJson : String → Except Exn Json := fun _ => .error (.jsonDecodeError "Expecting value")

def bobText : List (String × Json) := [("from", .str "bob"), ("payload", .str "aGk")]

theorem peers_isolated_in_turn :
    (runFrom (ClientTasks.step Char.isAlphanum sampleHandshake noJson) sampleTasks
      [.recv bobText (mix [22]) .ok, .sessionInit eveInit (mix [23]) .ok]).saves.map Prod.fst
        = ["alice__eve.json", "alice__bob.json"] ∧
    Isolated Char.isAlphanum
      (runFrom (ClientTasks.step Char.isAlphanum sampleHandshake noJson) sampleTasks
        [.recv bobText (mix [22]) .ok, .sessionInit eveInit (mix [23]) .ok]) := by
  have hplain : ∀ name ∈ ["bob", "eve"], ∀ ch ∈ name.toList,
      safeChar Char.isAlphanum ch = ch ∧ ch ≠ '_' := by
    have hall : ["bob", "eve"].all (fun name => name.toList.all fun ch =>
        decide (safeChar Char.isAlphanum ch = ch ∧ ch ≠ '_')) = true := by
      decide +kernel
    simpa only [List.all_eq_true, decide_eq_true_eq] using hall
  refine ⟨by decide +kernel, peers_isolated (ownFile_of_plain (hplain "bob" (by decide)) _)
    _ _ _ ⟨rfl, ?_, trivial⟩⟩
  exact ownFile_of_plain (hplain "eve" (by decide)) _

/-- Eve's `session_init` is answered while a line to Bob is on its way: the
file of the session with Bob gets the state of the session with Eve. -/
theorem session_init_between_line_and_save : ¬ Isolated Char.isAlphanum
    (runFrom (ClientTasks.step Char.isAlphanum sampleHandshake noJson) sampleTasks
      [.line (ascii "hi"), .sessionInit eveInit (mix [23]) .ok, .sent none .ok]) := by
  have hmixed : (runFrom (ClientTasks.step Char.isAlphanum sampleHandshake noJson) sampleTasks
      [.line (ascii "hi"), .sessionInit eveInit (mix [23]) .ok, .sent none .ok]).saves.any
        (fun e => e.1 == "alice__bob.json" && e.2.eqStr "eve") = true := by
    decide +kernel
  have huser : (runFrom (ClientTasks.step Char.isAlphanum sampleHandshake noJson) sampleTasks
      [.line (ascii "hi"), .sessionInit eveInit (mix [23]) .ok, .sent none .ok]).username
        = "alice" := by
    decide +kernel
  intro hisolated
  obtain ⟨⟨path, owner⟩, hmem, hentry⟩ := List.any_eq_true.mp hmixed
  simp only [Bool.and_eq_true, beq_iff_eq] at hentry
  obtain ⟨rfl, heve⟩ := hentry
  have hfile : sessionPath Char.isAlphanum "alice" (.str "bob") = .ok "alice__bob.json" := by
    rw [sessionPath_str]
    exact congrArg Except.ok (by decide +kernel)
  have hbob : owner = .str "bob" := hisolated.saves _ owner hmem "bob" (by rw [huser, hfile])
  rw [hbob] at heve
  exact absurd heve (by decide)

end GhostChat.Proofs
