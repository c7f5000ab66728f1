import GhostChat.Ref.DoubleRatchet
import GhostChat.Ref.Pair
import GhostChat.Ref.Text

/-!
# The session manager (client/session_manager.py and protocol/)

A manager keeps a session for each peer, and a session is a ratchet with
three guards in front of it: a bounded replay cache, a fork detector and a
flag that says the session has to be set up anew. `decrypt_from` asks the
cache, then the detector, then the ratchet, and each commits its own update
before the next one is asked.

The envelope is the parsed object, so its numbers are any integers and its
byte strings any byte strings.
-/

namespace GhostChat.Ref

open GhostChat.Lib GhostChat.Lib.Effect

variable {K P C : Type}

/-! ## Envelopes (protocol/envelope.py) -/

def currentVersion : Int := 1

structure ProtocolEnvelope (C : Type) where
  version : Int
  sessionId : Bytes
  senderRatchetKey : Bytes
  messageNumber : Int
  previousChainLength : Int
  ciphertext : C
  nonce : Bytes
  metaData : Odict String Json
  deriving DecidableEq

/-! ## Replay protection (protocol/replay_protection.py) -/

/-- `(session_id, sender_ratchet_key, message_number)`. -/
abbrev CacheKey := Bytes × Bytes × Int

structure SessionReplayCache where
  maxEntries : Nat := 1024
  seen : List CacheKey := []
  highestByRatchet : Odict Bytes Int := []
  deriving DecidableEq, Repr

def SessionReplayCache.makeKey (env : ProtocolEnvelope C) : CacheKey :=
  (env.sessionId, env.senderRatchetKey, env.messageNumber)

/-- The three reasons to refuse: an exact duplicate, a stale number, no room. -/
def SessionReplayCache.refuses (r : SessionReplayCache) (env : ProtocolEnvelope C) : Bool :=
  let last := Odict.get? r.highestByRatchet env.senderRatchetKey
  decide (SessionReplayCache.makeKey env ∈ r.seen)
    || last.any (env.messageNumber < ·)
    || decide (r.seen.length ≥ r.maxEntries)

/-- `accept`. -/
def SessionReplayCache.accept (env : ProtocolEnvelope C) :
    EStateM Exn SessionReplayCache Bool := do
  let r ← get
  if r.refuses env then return false
  let last := Odict.get? r.highestByRatchet env.senderRatchetKey
  modify fun r => { r with seen := SessionReplayCache.makeKey env :: r.seen }
  if last.all (env.messageNumber > ·) then
    modify fun r => { r with
      highestByRatchet := Odict.set r.highestByRatchet env.senderRatchetKey env.messageNumber }
  return true

/-! ## Fork detection (protocol/fork_detection.py) -/

structure ForkDetectionState where
  lastMessageNumber : Int := -1
  lastPreviousChainLength : Int := -1
  lastRatchetPub : Option Bytes := none
  deriving DecidableEq, Repr

def detectFork (ratchetPub : Bytes) (msgNum prevChainLen : Int) :
    EStateM Exn ForkDetectionState Bool := do
  let state ← get
  if state.lastRatchetPub = some ratchetPub ∧ msgNum < state.lastMessageNumber then return true
  if state.lastRatchetPub.any (· ≠ ratchetPub) ∧ msgNum < state.lastMessageNumber then
    return true
  if prevChainLen < state.lastPreviousChainLength then return true
  set { state with
    lastMessageNumber := msgNum
    lastPreviousChainLength := prevChainLen
    lastRatchetPub := some ratchetPub }
  return false

/-! ## Reset (protocol/session_reset.py) -/

structure SessionResetState where
  needsReset : Bool := false
  reason : Option String := none
  deriving DecidableEq, Repr

def markForReset (reason : String) : EStateM Exn SessionResetState Unit :=
  set ({ needsReset := true, reason := some reason } : SessionResetState)

/-! ## Sessions -/

structure SessionContext (K P : Type) where
  sessionId : Bytes
  ratchet : RatchetState K P
  replayCache : SessionReplayCache := {}
  forkState : ForkDetectionState := {}
  resetState : SessionResetState := {}
  deriving DecidableEq, Repr

namespace SessionContext

/-- A piece of a manager's method that works on one session. -/
abbrev Method (K P : Type) := EStateM Exn (SessionContext K P)

def onRatchet {α : Type} (x : DoubleRatchet.Method K P α) : Method K P α :=
  zoom (·.ratchet) (fun r ctx => { ctx with ratchet := r }) x

def onReplayCache {α : Type} (x : EStateM Exn SessionReplayCache α) : Method K P α :=
  zoom (·.replayCache) (fun r ctx => { ctx with replayCache := r }) x

def onForkState {α : Type} (x : EStateM Exn ForkDetectionState α) : Method K P α :=
  zoom (·.forkState) (fun f ctx => { ctx with forkState := f }) x

def onResetState {α : Type} (x : EStateM Exn SessionResetState α) : Method K P α :=
  zoom (·.resetState) (fun r ctx => { ctx with resetState := r }) x

/-- What `encrypt_for` does with the session it found, with the AEAD key. -/
def encryptKeyed (c : Crypto K P C) (profile : String) (plaintext : Bytes) :
    Method K P (ProtocolEnvelope C × K) := do
  let (em, key) ← onRatchet (DoubleRatchet.encryptKeyed c plaintext [])
  let ctx ← get
  return ({
    version := currentVersion
    sessionId := ctx.sessionId
    senderRatchetKey := em.header.dhPub
    messageNumber := em.header.n
    previousChainLength := em.header.pn
    ciphertext := em.ciphertext
    nonce := []
    metaData := [("profile", .str profile)] }, key)

/-- The two checks in front of the ratchet; `replayed` is the text of the
first one's error. -/
def guard (env : ProtocolEnvelope C) (replayed : String) : Method K P Unit := do
  let fresh ← onReplayCache (SessionReplayCache.accept env)
  if ¬ fresh then do
    onResetState (markForReset "replay-detected")
    throw (.valueError replayed)
  let forked ← onForkState
    (detectFork env.senderRatchetKey env.messageNumber env.previousChainLength)
  if forked then do
    onResetState (markForReset "fork-detected")
    throw (.valueError "fork detected")

/-- The message inside an envelope. -/
def messageOf (env : ProtocolEnvelope C) : EncryptedMessage C where
  header := {
    dhPub := env.senderRatchetKey
    pn := env.previousChainLength
    n := env.messageNumber }
  ciphertext := env.ciphertext

/-- What `decrypt_from` does with the session it found, with the AEAD key. -/
def decryptKeyed (c : Crypto K P C) (env : ProtocolEnvelope C) (generated : P) :
    Method K P (Bytes × K) := do
  guard env "replayed or stale envelope"
  onRatchet (DoubleRatchet.decryptKeyed c (messageOf env) [] generated)

end SessionContext

/-! ## `SessionManager` -/

structure SessionManager (K P : Type) where
  profile : String
  sessions : Odict Bytes (SessionContext K P) := []
  deriving DecidableEq, Repr

/-- One byte in `repr(b)`, inside quotes `quote`. -/
def reprByte (quote : Nat) (b : UInt8) : String :=
  let hex (d : Nat) : String := String.singleton (Nat.digitChar d)
  if b.toNat = quote ∨ b = 92 then "\\" ++ String.singleton (Char.ofNat b.toNat)
  else if b = 9 then "\\t"
  else if b = 10 then "\\n"
  else if b = 13 then "\\r"
  else if b < 32 ∨ b ≥ 127 then "\\x" ++ hex (b.toNat / 16) ++ hex (b.toNat % 16)
  else String.singleton (Char.ofNat b.toNat)

/-- `repr(b)` of a byte string: double quotes where it has an apostrophe and
no double quote. -/
def reprBytes (b : Bytes) : String :=
  let quote := if 39 ∈ b ∧ 34 ∉ b then 34 else 39
  let mark := String.singleton (Char.ofNat quote)
  "b" ++ mark ++ String.join (b.map (reprByte quote)) ++ mark

namespace SessionManager

abbrev Method (K P : Type) := EStateM Exn (SessionManager K P)

/-- `create_symmetric_session`. -/
def createSymmetricSession (c : Crypto K P C) (peerId : Bytes) (rootKey : K) (dhs : P)
    (dhr : Bytes) (isInitiator : Bool) : Method K P Unit := do
  let ratchet ← lift (DoubleRatchet.init c rootKey (some dhs) (some dhr) isInitiator 1000 dhs)
  modify fun m => { m with
    sessions := Odict.set m.sessions peerId { sessionId := peerId, ratchet := ratchet } }

/-- `ctx = self._get_ctx(peer_id)` and what is then done to `ctx`. -/
def withCtx {α : Type} (peerId : Bytes) (x : SessionContext.Method K P α) : Method K P α :=
  fun m =>
    match Odict.get? m.sessions peerId with
    | none =>
        let peer := reprBytes peerId
        .error (.keyError s!"No session for peer {peer}") m
    | some ctx =>
        match x ctx with
        | .ok a ctx' => .ok a { m with sessions := Odict.set m.sessions peerId ctx' }
        | .error e ctx' => .error e { m with sessions := Odict.set m.sessions peerId ctx' }

/-- `encrypt_for`, with the AEAD key the call used. -/
def encryptForKeyed (c : Crypto K P C) (peerId plaintext : Bytes) :
    Method K P (ProtocolEnvelope C × K) := do
  let m ← get
  withCtx peerId (SessionContext.encryptKeyed c m.profile plaintext)

def encryptFor (c : Crypto K P C) (peerId plaintext : Bytes) : Method K P (ProtocolEnvelope C) :=
  Prod.fst <$> encryptForKeyed c peerId plaintext

/-- `decrypt_from`, with the AEAD key the call used. -/
def decryptFromKeyed (c : Crypto K P C) (peerId : Bytes) (env : ProtocolEnvelope C)
    (generated : P) : Method K P (Bytes × K) :=
  withCtx peerId (SessionContext.decryptKeyed c env generated)

def decryptFrom (c : Crypto K P C) (peerId : Bytes) (env : ProtocolEnvelope C)
    (generated : P) : Method K P Bytes := Prod.fst <$> decryptFromKeyed c peerId env generated

end SessionManager

/-! ## Two linked managers -/

/-- Two managers that have each other's ratchet keys: what each calls the
other, and the ratchet keys they were set up with. -/
structure Linking (K P : Type) where
  rootKey : K
  peerId : Party → Bytes
  dhs : Party → P

/-- An envelope `encrypt_for` returned, with what it was asked to encrypt and
the key it used. -/
structure Letter (K C : Type) where
  plaintext : Bytes
  env : ProtocolEnvelope C
  key : K

/-- Two managers, the envelopes each has made (oldest first), how often each
was asked to decrypt, and what each has accepted (newest first). -/
structure Link (K P C : Type) where
  manager : Party → SessionManager K P
  letters : Party → List (Letter K C) := fun _ => []
  asked : Party → Nat := fun _ => 0
  opened : Party → List (ProtocolEnvelope C) := fun _ => []

/-- A call of `encrypt_for`, or of `decrypt_from` on any envelope. -/
inductive LinkAct (P C : Type) where
  | encrypt (who : Party) (plaintext : Bytes)
  | decrypt (who : Party) (env : ProtocolEnvelope C) (generated : P)

def Link.step (c : Crypto K P C) (l : Linking K P) (σ : Link K P C) : LinkAct P C → Link K P C
  | .encrypt who pt =>
      match SessionManager.encryptForKeyed c (l.peerId who) pt (σ.manager who) with
      | .ok (env, k) m => { σ with
          manager := Function.update σ.manager who m
          letters := Function.update σ.letters who (σ.letters who ++ [⟨pt, env, k⟩]) }
      | .error _ m => { σ with manager := Function.update σ.manager who m }
  | .decrypt who env g =>
      match SessionManager.decryptFrom c (l.peerId who) env g (σ.manager who) with
      | .ok _ m => { σ with
          manager := Function.update σ.manager who m
          asked := Function.update σ.asked who (σ.asked who + 1)
          opened := Function.update σ.opened who (env :: σ.opened who) }
      | .error _ m => { σ with
          manager := Function.update σ.manager who m
          asked := Function.update σ.asked who (σ.asked who + 1) }

/-- `create_symmetric_session` on both sides, with one root key and each
other's public ratchet key; the managers may have other sessions. -/
def Link.Starts (c : Crypto K P C) (l : Linking K P) (before : Party → SessionManager K P)
    (σ : Link K P C) : Prop :=
  (∀ who, SessionManager.createSymmetricSession c (l.peerId who) l.rootKey (l.dhs who)
    (c.publicKey (l.dhs who.other)) who.isInitiator (before who) = .ok () (σ.manager who)) ∧
  (∀ who, σ.letters who = []) ∧ (∀ who, σ.asked who = 0) ∧ ∀ who, σ.opened who = []

end GhostChat.Ref
