import GhostChat.Lib.Term
import GhostChat.Ref.Pair

/-!
# The symbolic reading of the cryptography

One instance of the parameters in which every assumption of this development
is a theorem: HKDF is a constructor of free terms, an X25519 output is the
unordered pair of the public keys it was computed from, and a ciphertext is a
sealed box that opens only under what it was sealed under. Concrete runs are
evaluated here. The all-zero public key is of low order, as it is for X25519.
-/

namespace GhostChat.Ref

open GhostChat.Lib

/-- What no party computes by HKDF: the session's root key, and DH outputs. -/
inductive Atom where
  | secret (name : Nat)
  | shared (keys : Bytes × Bytes)
  deriving DecidableEq

/-- Symbolic key material. -/
abbrev SymKey := Term Atom

/-- A sealed box. -/
structure Box where
  key : SymKey
  nonce : Bytes
  data : Bytes
  ad : Bytes
  deriving DecidableEq

def symKeys : KeyAlg SymKey where
  bytes := Term.show32
  lit := .lit
  cat := .cat
  hkdf := .kdf

/-- 32 bytes, none of them zero but the last for multiples of 256. -/
def symPublicKey (p : Nat) : Bytes := List.replicate 31 9 ++ [UInt8.ofNat p]

/-- Two public keys in an order that does not depend on whose is whose. -/
def unordered (X Y : Bytes) : Bytes × Bytes :=
  if (X.map UInt8.toNat).sum ≤ (Y.map UInt8.toNat).sum then (X, Y) else (Y, X)

theorem unordered_eq {X Y X' Y' : Bytes} (h : unordered X Y = unordered X' Y') :
    (X = X' ∧ Y = Y') ∨ (X = Y' ∧ Y = X') := by
  unfold unordered at h
  split at h <;> split at h <;> injection h with h₁ h₂
  · exact Or.inl ⟨h₁, h₂⟩
  · exact Or.inr ⟨h₁, h₂⟩
  · exact Or.inr ⟨h₂, h₁⟩
  · exact Or.inl ⟨h₂, h₁⟩

theorem unordered_symPublicKey (p q : Nat) :
    unordered (symPublicKey p) (symPublicKey q)
      = unordered (symPublicKey q) (symPublicKey p) := by
  simp only [unordered, symPublicKey, List.map_append, List.sum_append, List.map_cons,
    List.map_nil, List.sum_cons, List.sum_nil]
  rcases Nat.lt_trichotomy (UInt8.ofNat p).toNat (UInt8.ofNat q).toNat with h | h | h
  · rw [if_pos (by omega), if_neg (by omega)]
  · rw [UInt8.toNat_inj.mp h]
  · rw [if_neg (by omega), if_pos (by omega)]

/-- Private keys are numbers. -/
def symbolic : Crypto SymKey Nat Box where
  toKeyAlg := symKeys
  publicKey := symPublicKey
  sharedKey := fun p pub =>
    if pub = List.replicate 32 0 then none
    else some (.atom (.shared (unordered (symPublicKey p) pub)))
  encrypt := fun key nonce data ad => some ⟨key, nonce, data, ad⟩
  decrypt := fun key nonce box ad =>
    if box.key = key ∧ box.nonce = nonce ∧ box.ad = ad then some box.data else none

/-- A root key the ratchet did not derive. -/
def symRoot : SymKey := .atom (.secret 0)

theorem symKeys_injective : symKeys.Injective where
  hkdf_inj := fun h => by
    injection h with h₁ h₂ h₃ h₄
    exact ⟨h₁, h₂, h₃, h₄⟩
  hkdf_length := fun _ _ _ _ => List.length_replicate

/-! ## Concrete runs -/

/-- The first keys the generator gives: 1 to the initiator, 2 to the
responder. -/
def symGen : Party → Nat
  | .initiator => 1
  | .responder => 2

/-- What `create_initial_state` makes of `symRoot` on both sides. -/
def symPair (maxSkippedKeys : Nat) : Pair SymKey Nat Box where
  engine := fun who => {
    rootKey := symRoot
    sendingChainKey :=
      if who.isInitiator then some (kdfInitialChain symKeys symRoot) else none
    receivingChainKey :=
      if who.isInitiator then none else some (kdfInitialChain symKeys symRoot)
    dhsPrivate := some (symGen who)
    skippedMessageKeys := { maxKeys := maxSkippedKeys } }
  handed := fun who => [symGen who]
  log := []

theorem symPair_start (cap : Nat) :
    Pair.start symbolic symRoot cap symGen = .ok (symPair cap) := by
  rw [Pair.start]
  refine congrArg Except.ok ?_
  rw [Pair.mk.injEq]
  refine ⟨funext fun who => ?_, rfl, rfl⟩
  cases who <;> rfl

/-- The messages sent so far, oldest first. -/
def Pair.wires {K P C : Type} (σ : Pair K P C) : List (RatchetWireMessage C) :=
  (σ.log.filterMap fun
    | .sent _ _ w _ => some w
    | .accepted .. => none).reverse

/-- Deliver the `i`th message sent so far, as `change` makes it. -/
def relay (who : Party) (i : Nat) (g : Nat)
    (change : RatchetWireMessage Box → RatchetWireMessage Box)
    (σ : Pair SymKey Nat Box) : Act Nat Box :=
  match σ.wires[i]? with
  | some w => .decrypt who (change w) g
  | none => .encrypt who []

/-- The actions of a script whose every line may look at the messages sent
before it. -/
def script (σ : Pair SymKey Nat Box) : List (Pair SymKey Nat Box → Act Nat Box) →
    List (Act Nat Box)
  | [] => []
  | f :: fs => f σ :: script (σ.step symbolic (f σ)) fs

end GhostChat.Ref
