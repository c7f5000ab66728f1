import GhostChat.Lib.Logged
import GhostChat.Lib.Run
import GhostChat.Ref.Ratchet

/-!
# The engine with its chain steps written down

`ratchet_encrypt`, `ratchet_decrypt` and what they call, line for line as in
`Ref/Ratchet.lean`, except that every `kdf_chain(...)` first notes the chain
key it is handed, `none` where that is Python's `None`. The notes are what a
bound on the work of one call, or the claim that no call steps a chain that is
not there, is about.

`EngineCall` is one call on one engine, by whoever drives it.
-/

namespace GhostChat.Ref

open GhostChat.Lib GhostChat.Lib.Effect

variable {K P C : Type}

/-- A method of the engine over a log of the chain keys stepped. -/
abbrev LoggedEngine (K P : Type) :=
  EStateM Exn (DoubleRatchetState K P × List (Option K))

/-- `kdf_chain(chain_key)`, noted. -/
def kdfChainLogged (a : KeyAlg K) (chainKey : Option K) : LoggedEngine K P (K × K) := do
  note chainKey
  match chainKey with
  | none => throw (.typeError "ikm must be bytes")
  | some ck => return kdfChain a ck

def skipReceivingLoopLogged (a : KeyAlg K) (dhr : Bytes) (upTo : Nat) :
    Nat → LoggedEngine K P Unit
  | 0 => pure ()
  | fuel + 1 => do
      let s ← quietly get
      if s.Nr < upTo then
        let k ← kdfChainLogged a s.receivingChainKey
        quietly (modify fun s => { s with receivingChainKey := some k.1 })
        quietly (onSkipped (SkippedMessageKeys.add a dhr s.Nr k.2))
        quietly (modify fun s => { s with Nr := s.Nr + 1 })
        skipReceivingLoopLogged a dhr upTo fuel
      else pure ()

def skipReceivingUntilLogged (a : KeyAlg K) (upTo : Nat) : LoggedEngine K P Unit := do
  let s ← quietly get
  match s.receivingChainKey, s.dhr with
  | some _, some dhr => skipReceivingLoopLogged a dhr upTo (upTo - s.Nr)
  | _, _ => pure ()

def ensureReceivingChainLogged (c : Crypto K P C) (dh : Bytes) (generated : P) :
    LoggedEngine K P Unit := do
  let s ← quietly get
  if s.dhr.isNone ∧ s.receivingChainKey.isSome ∧ s.sendingChainKey.isNone then
    quietly (modify fun s => { s with dhr := some dh })
  else if s.dhr.isNone ∧ s.sendingChainKey.isSome then do
    skipReceivingUntilLogged c.toKeyAlg s.Nr
    quietly (dhRatchetReceive c dh generated)
  else if s.receivingChainKey.isNone ∧ s.dhr.isNone then do
    skipReceivingUntilLogged c.toKeyAlg s.Nr
    quietly (dhRatchetReceiveFirst c.toKeyAlg dh)
  else if s.receivingChainKey.isNone ∧ s.dhr = some dh then do
    let shared ← quietly (lift (dhWith c s.dhsPrivate dh))
    quietly (modify fun s => { s with
      rootKey := (kdfRoot c.toKeyAlg s.rootKey shared).1
      receivingChainKey := some (kdfRoot c.toKeyAlg s.rootKey shared).2 })
  let s ← quietly get
  if s.dhr.isSome ∧ s.dhr ≠ some dh then do
    skipReceivingUntilLogged c.toKeyAlg s.Nr
    quietly (dhRatchetReceive c dh generated)

def nextReceivingKeyLogged (a : KeyAlg K) : LoggedEngine K P K := do
  let s ← quietly get
  let k ← kdfChainLogged a s.receivingChainKey
  quietly (modify fun s => { s with receivingChainKey := some k.1, Nr := s.Nr + 1 })
  return k.2

def decryptOnChainLogged (c : Crypto K P C) (msg : RatchetWireMessage C) :
    LoggedEngine K P (Bytes × K) := do
  let n := msg.header.n.toNat
  let s ← quietly get
  if n < s.Nr then
    throw (.duplicateMessage "Message number already processed (replay)")
  if s.receivingChainKey.isSome ∧ n - s.Nr > maxSkipDistance then
    throw (.skipDistanceExceeded
      s!"Skip distance {n - s.Nr} exceeds MAX_SKIP_DISTANCE={maxSkipDistance}")
  skipReceivingUntilLogged c.toKeyAlg n
  let mk ← nextReceivingKeyLogged c.toKeyAlg
  let plaintext ← quietly (openWith c mk msg "AEAD verification failed")
  return (plaintext, mk)

/-- `ratchet_decrypt`. -/
def ratchetDecryptLogged (c : Crypto K P C) (msg : RatchetWireMessage C)
    (generated : P) : LoggedEngine K P (Bytes × K) := do
  quietly (lift (checkHeader msg))
  let dh := msg.header.dh
  let n := msg.header.n.toNat
  let s ← quietly get
  if s.receivedIds.contains dh n then
    throw (.duplicateMessage "Message already processed (replay or duplicate header)")
  if s.skippedMessageKeys.has dh n then do
    let mk ← quietly (onSkipped (SkippedMessageKeys.pop dh n))
    let plaintext ←
      quietly (openWith c mk msg "AEAD verification failed (skipped-key path)")
    return (plaintext, mk)
  else do
    if s.dhr = some dh ∧ n < s.Nr then
      throw (.duplicateMessage "Message number already processed (replay)")
    ensureReceivingChainLogged c dh generated
    decryptOnChainLogged c msg

def nextSendingKeyLogged (c : Crypto K P C) : LoggedEngine K P K := do
  let s ← quietly get
  if s.sendingChainKey.isNone then quietly (dhRatchetStepSend c)
  let s ← quietly get
  if s.sendingChainKey.isNone then
    throw (.decryption "No sending chain key (protocol not initialized or peer DH missing)")
  let k ← kdfChainLogged c.toKeyAlg s.sendingChainKey
  quietly (modify fun s => { s with sendingChainKey := some k.1 })
  return k.2

/-- `ratchet_encrypt`. -/
def ratchetEncryptLogged (c : Crypto K P C) (plaintext : Bytes) :
    LoggedEngine K P (RatchetWireMessage C × K) := do
  let mk ← nextSendingKeyLogged c
  let msg ← quietly (sealWith c mk plaintext)
  return (msg, mk)

/-- The chain keys a call stepped, newest first. -/
def stepped {α : Type} (x : LoggedEngine K P α) (s : DoubleRatchetState K P) :
    List (Option K) := (after (x (s, []))).2

/-! ## One engine, driven from outside -/

/-- A call of `ratchet_encrypt`, or of `ratchet_decrypt` on any message, with
the key the generator would give. -/
inductive EngineCall (P C : Type) where
  | encrypt (plaintext : Bytes)
  | decrypt (msg : RatchetWireMessage C) (generated : P)

/-- The state a call leaves, returned or raised. -/
def EngineCall.step (c : Crypto K P C) (s : DoubleRatchetState K P) :
    EngineCall P C → DoubleRatchetState K P
  | .encrypt pt => after (ratchetEncrypt c pt s)
  | .decrypt msg g => after (ratchetDecrypt c msg g s)

end GhostChat.Ref
