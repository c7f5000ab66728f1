import GhostChat.Ref.DoubleRatchet
import GhostChat.Ref.Pair

/-!
# Two engines of the protocol layer, without their managers

Two `DoubleRatchet` objects with one root key. Between them is a network that
keeps what either has sent and hands it over as it likes: in any order, more
than once, or never. What a run of it promises, that a message is delivered
once or in the order it was sent, is for the theorem to say; the step delivers
whatever it is told to.

As in `Ref/Pair.lean`, a call that raises is a step, and the private keys that
`X25519PrivateKey.generate()` would give are arguments.
-/

namespace GhostChat.Ref

open GhostChat.Lib

variable {K P C : Type}

/-- A message `encrypt` returned, with what it was asked to encrypt. -/
structure Posted (C : Type) where
  plaintext : Bytes
  ad : Bytes
  message : EncryptedMessage C

/-- Two engines, what each has sent (oldest first), and which of the peer's
messages each has been handed (newest first). -/
structure Duo (K P C : Type) where
  engine : Party → RatchetState K P
  posted : Party → List (Posted C) := fun _ => []
  arrived : Party → List Nat := fun _ => []

/-- A call of `encrypt`, or of `decrypt` on message number `i` of the peer. -/
inductive DuoAct (P : Type) where
  | encrypt (who : Party) (plaintext ad : Bytes)
  | deliver (who : Party) (i : Nat) (generated : P)

def Duo.step (c : Crypto K P C) (σ : Duo K P C) : DuoAct P → Duo K P C
  | .encrypt who pt ad =>
      match DoubleRatchet.encrypt c pt ad (σ.engine who) with
      | .ok em s => { σ with
          engine := Function.update σ.engine who s
          posted := Function.update σ.posted who (σ.posted who ++ [⟨pt, ad, em⟩]) }
      | .error _ s => { σ with engine := Function.update σ.engine who s }
  | .deliver who i g =>
      match (σ.posted who.other)[i]? with
      | none => σ
      | some x => { σ with
          engine := Function.update σ.engine who
            (Effect.after (DoubleRatchet.decrypt c x.message x.ad g (σ.engine who)))
          arrived := Function.update σ.arrived who (i :: σ.arrived who) }

/-- `DoubleRatchet(root_key=, dhs=, dhr=, is_initiator=, max_skipped_keys=)` on
both sides. -/
def Duo.start (c : Crypto K P C) (rootKey : K) (dhs : Party → P) (dhr : Party → Option Bytes)
    (maxSkippedKeys : Party → Nat) : Except Exn (Duo K P C) := do
  let a ← DoubleRatchet.init c rootKey (some (dhs .initiator)) (dhr .initiator) true
    (maxSkippedKeys .initiator) (dhs .initiator)
  let b ← DoubleRatchet.init c rootKey (some (dhs .responder)) (dhr .responder) false
    (maxSkippedKeys .responder) (dhs .responder)
  return { engine := fun | .initiator => a | .responder => b }

/-- What the delivery of message `i` returns. -/
def Duo.opens (c : Crypto K P C) (σ : Duo K P C) (who : Party) (i : Nat) (g : P) :
    Option Bytes :=
  (σ.posted who.other)[i]?.bind fun x =>
    Effect.value? (DoubleRatchet.decrypt c x.message x.ad g (σ.engine who))

end GhostChat.Ref
