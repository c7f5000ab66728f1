import GhostChat.Ref.Prekey

/-!
# A byte-level instance to run examples on

The symbolic instance has keys that are terms and ciphertexts that are boxes.
Code that writes keys and ciphertexts out as base64 needs them to be bytes, so
here is the other instance: a mixing function in the place of HKDF and X25519,
and an AEAD that leaves the plaintext readable and appends a tag. It is no
cryptography. It has the interface of the real thing: keys of 32 bytes, a
commutative DH, tags of 16 bytes that depend on every input.
-/

namespace GhostChat.Ref

/-- 32 bytes in which every byte of the input has a part. -/
def mix (input : Bytes) : Bytes :=
  let h := input.foldl (fun h x => (h * 257 + x.toNat + 1) % 4294967291) 7
  (List.range 32).map fun i => UInt8.ofNat ((h * (2 * i + 1)) >>> (i % 4 * 8))

@[simp] theorem mix_length (input : Bytes) : (mix input).length = 32 := by
  simp [mix]

def sampleTag (key nonce data ad : Bytes) : Bytes :=
  (mix (key ++ nonce ++ ad ++ data)).take 16

def sampleCrypto : Crypto Bytes Bytes Bytes where
  bytes k := k
  lit b := b
  cat := (· ++ ·)
  hkdf ikm salt info block := mix (ikm ++ salt ++ info ++ [UInt8.ofNat block])
  publicKey p := mix p
  sharedKey p pub := some (mix (List.zipWith (· + ·) (mix p) pub))
  encrypt key nonce data ad := some (data ++ sampleTag key nonce data ad)
  decrypt key nonce data ad :=
    let body := data.take (data.length - 16)
    if data = body ++ sampleTag key nonce body ad then some body else none

/-- Signatures of 64 bytes that depend on the key and on the message. -/
def sampleSignature (publicKey message : Bytes) : Bytes :=
  mix (publicKey ++ message) ++ mix (message ++ publicKey)

def sampleHandshake : HandshakeCrypto Bytes Bytes Bytes where
  toCrypto := sampleCrypto
  privateKey := id
  sha256 := mix
  sign privateKey message := sampleSignature (mix privateKey) message
  verify publicKey message signature := decide (signature = sampleSignature publicKey message)

theorem sampleCrypto_hkdf_length (i s f : Bytes) (b : Nat) :
    (sampleCrypto.bytes (sampleCrypto.hkdf i s f b)).length = 32 := mix_length _

/-- A state of `create_initial_state(root_key, is_initiator)`, with a fixed
root key and a fixed generated key. -/
def sampleState (isInitiator : Bool) : DoubleRatchetState Bytes Bytes where
  rootKey := mix [1]
  sendingChainKey :=
    if isInitiator then some (kdfInitialChain sampleCrypto.toKeyAlg (mix [1])) else none
  receivingChainKey :=
    if isInitiator then none else some (kdfInitialChain sampleCrypto.toKeyAlg (mix [1]))
  dhsPrivate := some (mix [2])
  skippedMessageKeys := { maxKeys := 1000 }

theorem sampleState_created (isInitiator : Bool) :
    createInitialState sampleCrypto (mix [1]) isInitiator none 1000 (mix [2])
      = .ok (sampleState isInitiator) := by
  cases isInitiator <;> rfl

/-- A bundle with one one-time prekey, made from the number `n`. -/
def sampleBundle (n : UInt8) : ClientPreKeyBundle :=
  let identity : IdentityKeyPair := ⟨mix (mix [n, 1]), mix [n, 1]⟩
  { identity := identity
    identityDhPrivate := mix [n, 2]
    signedPrekey := SignedPreKey.generate sampleHandshake 1 identity (mix [n, 3])
    oneTimePrekeys := [(1000, OneTimePreKey.generate sampleHandshake 1000 (mix [n, 4]))] }

end GhostChat.Ref
