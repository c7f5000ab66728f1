import GhostChat.Ref.Client
import GhostChat.Ref.Pair

/-!
# Two `SessionCrypto` (client/crypto/ratchet.py)

The symmetric session of the client, on both sides of one root key. Each side
sends on one chain and receives on the other. A payload carries its number and
its nonce in the clear in front of the ciphertext; `decrypt_message` takes the
nonce from there, looks at the number only to count, and always uses the next
key of its chain.

Anything may be delivered. What was sent and what was accepted is remembered
next to the sessions, with the key each payload was encrypted under.
-/

namespace GhostChat.Ref

open GhostChat.Lib GhostChat.Lib.Effect

variable {K P : Type}

def chainSendInfo : Bytes := ascii "ghostchat-ratchet-send"
def chainRecvInfo : Bytes := ascii "ghostchat-ratchet-recv"

/-- `from_root_key`. -/
def SessionCrypto.fromRootKey (a : KeyAlg K) (rootKey : K) (isInitiator : Bool) :
    Except Exn (SessionCrypto K) :=
  if (a.bytes rootKey).length ≠ 32 then .error (.valueError "root_key must be 32 bytes")
  else
    let keySend := a.hkdf rootKey (a.lit sessionSalt) chainSendInfo 0
    let keyRecv := a.hkdf rootKey (a.lit sessionSalt) chainRecvInfo 0
    .ok {
      rootKey := rootKey
      sendChainKey := if isInitiator then keySend else keyRecv
      recvChainKey := if isInitiator then keyRecv else keySend }

structure SentPayload (K : Type) where
  plaintext : Bytes
  payload : Bytes
  key : K

/-- The two sessions, what each side sent and what it accepted, oldest
first. -/
structure SessionPair (K : Type) where
  session : Party → SessionCrypto K
  sent : Party → List (SentPayload K)
  got : Party → List Bytes

inductive SessionAct where
  | encrypt (who : Party) (plaintext : Bytes)
  | decrypt (who : Party) (payload : Bytes)

def SessionPair.start (a : KeyAlg K) (rootKey : K) : Except Exn (SessionPair K) := do
  let initiator ← SessionCrypto.fromRootKey a rootKey true
  let responder ← SessionCrypto.fromRootKey a rootKey false
  return {
    session := fun | .initiator => initiator | .responder => responder
    sent := fun _ => []
    got := fun _ => [] }

def SessionPair.step (c : Crypto K P Bytes) (σ : SessionPair K) : SessionAct → SessionPair K
  | .encrypt who plaintext =>
      match SessionCrypto.encryptMessage c plaintext (σ.session who) with
      | .ok payload s => { σ with
          session := Function.update σ.session who s
          sent := Function.update σ.sent who (σ.sent who ++ [⟨plaintext, payload,
            (deriveChainAndMessageKey c.toKeyAlg (σ.session who).sendChainKey).2⟩]) }
      | .error _ s => { σ with session := Function.update σ.session who s }
  | .decrypt who payload =>
      match SessionCrypto.decryptMessage c payload (σ.session who) with
      | .ok plaintext s => { σ with
          session := Function.update σ.session who s
          got := Function.update σ.got who (σ.got who ++ [plaintext]) }
      | .error _ s => { σ with session := Function.update σ.session who s }

end GhostChat.Ref
