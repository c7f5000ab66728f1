import GhostChat.Lib.Chain
import GhostChat.Ref.Symbolic

/-!
# Every key of a session has an address

A session derives all its keys from one root key. A root step folds a DH
output into the root and splits off a chain head; a chain step splits a
message key off a chain key. So a chain is named by the list of DH outputs
folded in before it, newest first, the empty list naming the bootstrap chain,
and a message key is named by a chain and a position.

With HKDF injective the address is determined by the key (`msgKey_inj`).
That is the growing-root-key argument of this development, made once: no
later file looks at a KDF again, they compare addresses.
-/

namespace GhostChat.Proofs

open GhostChat.Lib GhostChat.Ref

variable {K : Type} {a : KeyAlg K} {rk : K}

/-- The root key after folding in the DH outputs of `l`, newest first. -/
def rootAfter (a : KeyAlg K) (rk : K) (l : List K) : K :=
  Chain.fold (fun r s => (kdfRoot a r s).1) rk l

/-- The chain key with which the chain named `l` starts. -/
def chainHead (a : KeyAlg K) (rk : K) : List K → K
  | [] => kdfInitialChain a rk
  | s :: l => (kdfRoot a (rootAfter a rk l) s).2

/-- The chain key of chain `l` after `k` steps. -/
def chainKey (a : KeyAlg K) (rk : K) (l : List K) (k : Nat) : K :=
  (fun ck => (kdfChain a ck).1)^[k] (chainHead a rk l)

/-- The message key of position `k` in chain `l`. -/
def msgKey (a : KeyAlg K) (rk : K) (l : List K) (k : Nat) : K :=
  (kdfChain a (chainKey a rk l k)).2

theorem chainKey_succ (l : List K) (k : Nat) :
    chainKey a rk l (k + 1) = (kdfChain a (chainKey a rk l k)).1 :=
  Function.iterate_succ_apply' _ _ _

/-- What a session assumes of its root key and of HKDF: derivations do not
collide, the root key has the length `create_initial_state` demands, and it
was not itself produced by the ratchet's root KDF. The last holds because the
handshakes that produce it run HKDF under labels of their own. -/
structure GoodKdf (a : KeyAlg K) (rk : K) : Prop extends a.Injective where
  root_length : (a.bytes rk).length = 32
  root_fresh : ∀ ikm salt block, a.hkdf ikm salt rootInfo block ≠ rk

namespace GoodKdf

variable (h : GoodKdf a rk)

include h

theorem rootAfter_length (l : List K) :
    (a.bytes (rootAfter a rk l)).length = 32 :=
  Chain.fold_good (fun k => (a.bytes k).length = 32) h.root_length
    (fun _ _ => h.hkdf_length _ _ _ _) l

theorem rootAfter_inj {l l' : List K}
    (e : rootAfter a rk l = rootAfter a rk l') : l = l' :=
  Chain.fold_inj (fun k => (a.bytes k).length = 32) h.root_length
    (fun _ _ => h.hkdf_length _ _ _ _)
    (fun hr hr' e => kdfRoot_fst_inj h.toInjective hr hr' e)
    (fun _ _ => h.root_fresh _ _ _) e

theorem chainHead_inj {l l' : List K}
    (e : chainHead a rk l = chainHead a rk l') : l = l' := by
  cases l with
  | nil =>
      cases l' with
      | nil => rfl
      | cons s' l' =>
          exact absurd e (kdfInitialChain_ne_root h.toInjective _ _ _)
  | cons s l =>
      cases l' with
      | nil =>
          exact absurd e.symm (kdfInitialChain_ne_root h.toInjective _ _ _)
      | cons s' l' =>
          obtain ⟨hr, hs⟩ := kdfRoot_snd_inj h.toInjective
            (h.rootAfter_length l) (h.rootAfter_length l') e
          rw [hs, h.rootAfter_inj hr]

theorem chainHead_ne_next (l : List K) (ck : K) :
    (kdfChain a ck).1 ≠ chainHead a rk l := by
  cases l with
  | nil => exact (kdfInitialChain_ne_chain h.toInjective _ _).symm
  | cons s l => exact (kdfRoot_snd_ne_chain h.toInjective _ _ _).symm

theorem chainKey_inj {l l' : List K} {j j' : Nat}
    (e : chainKey a rk l j = chainKey a rk l' j') : l = l' ∧ j = j' := by
  obtain ⟨hl, hj⟩ := Chain.iterate_inj
    (fun _ _ e => kdfChain_fst_inj h.toInjective e)
    (h.chainHead_ne_next l) (h.chainHead_ne_next l') e
  exact ⟨h.chainHead_inj hl, hj⟩

/-- A message key has one address. -/
theorem msgKey_inj {l l' : List K} {j j' : Nat}
    (e : msgKey a rk l j = msgKey a rk l' j') : l = l' ∧ j = j' :=
  h.chainKey_inj (kdfChain_snd_inj h.toInjective e)

end GoodKdf

theorem symbolic_good : GoodKdf symbolic.toKeyAlg symRoot where
  toInjective := symKeys_injective
  root_length := List.length_replicate
  root_fresh := nofun

end GhostChat.Proofs
