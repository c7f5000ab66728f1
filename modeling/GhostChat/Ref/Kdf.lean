import GhostChat.Ref.Py

/-!
# Keys and the ratchet's key derivation (client/crypto/kdf.py)

The code derives every key with `hkdf_derive`, HKDF over SHA-256 from the
`cryptography` package. HKDF is not in the repository, so it is a parameter:
`KeyAlg` is a type of byte strings with literals, concatenation, the bytes a
value shows, and HKDF itself. One output of HKDF is one 32-byte block: the
call with `length=64` is the blocks 0 and 1 of one expansion, and
`material[:32], material[32:]` are those blocks, so a block index stands for
the slice.

The type is left open on purpose. At `K = Bytes` the model is the code; at a
type of free terms it is the symbolic model in which HKDF is a constructor.
The labels are the source's own byte strings, and that they keep the three
derivations apart is a fact about those strings, proved here by evaluating
them.
-/

namespace GhostChat.Ref

/-- Byte strings over which HKDF is computed. -/
structure KeyAlg (K : Type) where
  /-- the bytes a value shows to code that looks at them -/
  bytes : K → Bytes
  /-- a public byte string -/
  lit : Bytes → K
  /-- `a + b` -/
  cat : K → K → K
  /-- one 32-byte block of `hkdf_derive(ikm=, salt=, info=, length=)` -/
  hkdf : (ikm salt : K) → (info : Bytes) → (block : Nat) → K

variable {K : Type}

def rootInfo : Bytes := ascii "ghostchat-ratchet-root"
def rootSalt : Bytes := ascii "ghostchat-ratchet-root-salt"
def chainInfo : Bytes := ascii "ghostchat-ratchet-chain"
def chainSalt : Bytes := ascii "ghostchat-ratchet-chain-salt"
def firstSendInfo : Bytes := ascii "ghostchat-dr-first-send"

/-- `root_key or ROOT_SALT`: an empty byte string is false in Python. -/
def rootKeyOrSalt (a : KeyAlg K) (rootKey : K) : K :=
  if (a.bytes rootKey).isEmpty then a.lit rootSalt else rootKey

/-- `kdf_root`: the new root key and a chain key. -/
def kdfRoot (a : KeyAlg K) (rootKey dhOutput : K) : K × K :=
  (a.hkdf dhOutput (rootKeyOrSalt a rootKey) rootInfo 0,
   a.hkdf dhOutput (rootKeyOrSalt a rootKey) rootInfo 1)

/-- `kdf_chain`: the next chain key and a message key. -/
def kdfChain (a : KeyAlg K) (chainKey : K) : K × K :=
  (a.hkdf chainKey (a.lit chainSalt) chainInfo 0,
   a.hkdf chainKey (a.lit chainSalt) chainInfo 1)

/-- `kdf_initial_chain`. -/
def kdfInitialChain (a : KeyAlg K) (rootKey : K) : K :=
  a.hkdf rootKey (a.lit rootSalt) firstSendInfo 0

/-- What the ratchet relies on of HKDF: no two derivations collide, and a
derived key is 32 bytes. -/
structure KeyAlg.Injective (a : KeyAlg K) : Prop where
  hkdf_inj : ∀ {i s i' s' : K} {f f' : Bytes} {b b' : Nat},
    a.hkdf i s f b = a.hkdf i' s' f' b' → i = i' ∧ s = s' ∧ f = f' ∧ b = b'
  hkdf_length : ∀ i s f b, (a.bytes (a.hkdf i s f b)).length = 32

/-! ## Domain separation, read off the labels -/

variable {a : KeyAlg K}

theorem rootKeyOrSalt_of_length {rk : K} (h : (a.bytes rk).length = 32) :
    rootKeyOrSalt a rk = rk := by
  have : (a.bytes rk).isEmpty = false := by
    rw [List.isEmpty_eq_false_iff]
    rintro h0
    rw [h0] at h
    cases h
  rw [rootKeyOrSalt, this]
  rfl

theorem kdfRoot_fst_inj (ha : a.Injective) {r r' d d' : K}
    (hr : (a.bytes r).length = 32) (hr' : (a.bytes r').length = 32)
    (h : (kdfRoot a r d).1 = (kdfRoot a r' d').1) : r = r' ∧ d = d' := by
  obtain ⟨hd, hs, -, -⟩ := ha.hkdf_inj h
  rw [rootKeyOrSalt_of_length hr, rootKeyOrSalt_of_length hr'] at hs
  exact ⟨hs, hd⟩

theorem kdfRoot_snd_inj (ha : a.Injective) {r r' d d' : K}
    (hr : (a.bytes r).length = 32) (hr' : (a.bytes r').length = 32)
    (h : (kdfRoot a r d).2 = (kdfRoot a r' d').2) : r = r' ∧ d = d' := by
  obtain ⟨hd, hs, -, -⟩ := ha.hkdf_inj h
  rw [rootKeyOrSalt_of_length hr, rootKeyOrSalt_of_length hr'] at hs
  exact ⟨hs, hd⟩

theorem kdfChain_fst_inj (ha : a.Injective) {c c' : K}
    (h : (kdfChain a c).1 = (kdfChain a c').1) : c = c' := (ha.hkdf_inj h).1

theorem kdfChain_snd_inj (ha : a.Injective) {c c' : K}
    (h : (kdfChain a c).2 = (kdfChain a c').2) : c = c' := (ha.hkdf_inj h).1

theorem kdfRoot_snd_ne_chain (ha : a.Injective) (r d c : K) :
    (kdfRoot a r d).2 ≠ (kdfChain a c).1 := by
  intro h
  exact absurd (ha.hkdf_inj h).2.2.1 (by decide)

theorem kdfInitialChain_ne_chain (ha : a.Injective) (r c : K) :
    kdfInitialChain a r ≠ (kdfChain a c).1 := by
  intro h
  exact absurd (ha.hkdf_inj h).2.2.1 (by decide)

theorem kdfInitialChain_ne_root (ha : a.Injective) (r r' d : K) :
    kdfInitialChain a r ≠ (kdfRoot a r' d).2 := by
  intro h
  exact absurd (ha.hkdf_inj h).2.2.1 (by decide)

end GhostChat.Ref
