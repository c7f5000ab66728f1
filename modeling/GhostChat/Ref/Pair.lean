import GhostChat.Lib.Run
import GhostChat.Ref.Ratchet

/-!
# Two engines and whoever is between them

A session is two `DoubleRatchetEngine`s made by `create_initial_state` from
one root key, one as initiator and one as responder, with no remote key known
on either side. From then on anything may happen: a party encrypts, or a
party is handed a wire message, which may be the peer's, an old one, one of
its own or one made up on the way. A call that raises is a step like any
other, and the state it leaves is the state the next step starts from.

The log and the list of generated keys are not part of the program. The log
remembers what every returning call was given, what it returned and which
AEAD key it used; `handed` remembers what `X25519PrivateKey.generate()` gave
out, so that an assumption about fresh keys can be stated step by step.
-/

namespace GhostChat.Ref

open GhostChat.Lib

variable {K P C : Type}

/-- The two ends: `is_initiator=True` and `is_initiator=False`. -/
inductive Party where
  | initiator
  | responder
  deriving DecidableEq, Repr

def Party.other : Party → Party
  | .initiator => .responder
  | .responder => .initiator

def Party.isInitiator : Party → Bool
  | .initiator => true
  | .responder => false

@[simp] theorem Party.other_other (x : Party) : x.other.other = x := by
  cases x <;> rfl

theorem Party.forall_iff {p : Party → Prop} :
    (∀ x, p x) ↔ p .initiator ∧ p .responder := by
  refine ⟨fun h => ⟨h _, h _⟩, fun h x => ?_⟩
  cases x with
  | initiator => exact h.1
  | responder => exact h.2

/-- What may happen next: a call of `ratchet_encrypt` or a call of
`ratchet_decrypt`, on any message, with the key the generator would give. -/
inductive Act (P C : Type) where
  | encrypt (who : Party) (plaintext : Bytes)
  | decrypt (who : Party) (msg : RatchetWireMessage C) (generated : P)

/-- A call that returned. -/
inductive Event (K C : Type) where
  | sent (who : Party) (plaintext : Bytes) (msg : RatchetWireMessage C) (key : K)
  | accepted (who : Party) (msg : RatchetWireMessage C) (plaintext : Bytes) (key : K)
  deriving DecidableEq

/-- The two engines, the generated keys of each (newest first), and the calls
that returned (newest first). -/
structure Pair (K P C : Type) where
  engine : Party → DoubleRatchetState K P
  handed : Party → List P
  log : List (Event K C)

def Pair.step (c : Crypto K P C) (σ : Pair K P C) : Act P C → Pair K P C
  | .encrypt who pt =>
      match ratchetEncryptKeyed c pt (σ.engine who) with
      | .ok (w, k) s => { σ with
          engine := Function.update σ.engine who s
          log := .sent who pt w k :: σ.log }
      | .error _ s => { σ with engine := Function.update σ.engine who s }
  | .decrypt who msg g =>
      match ratchetDecryptKeyed c msg g (σ.engine who) with
      | .ok (pt, k) s => { σ with
          engine := Function.update σ.engine who s
          handed := Function.update σ.handed who (g :: σ.handed who)
          log := .accepted who msg pt k :: σ.log }
      | .error _ s => { σ with
          engine := Function.update σ.engine who s
          handed := Function.update σ.handed who (g :: σ.handed who) }

/-- `create_initial_state(rk, is_initiator=True)` and
`create_initial_state(rk, is_initiator=False)`. -/
def Pair.start (c : Crypto K P C) (rk : K) (maxSkippedKeys : Nat)
    (generated : Party → P) : Except Exn (Pair K P C) := do
  let a ← createInitialState c rk true none maxSkippedKeys (generated .initiator)
  let b ← createInitialState c rk false none maxSkippedKeys (generated .responder)
  return {
    engine := fun | .initiator => a | .responder => b
    handed := fun who => [generated who]
    log := [] }

/-- The default of `max_skipped_keys`. -/
def maxSkippedKeysDefault : Nat := 1000

/-- The pair after a run. -/
def Pair.run (c : Crypto K P C) (σ : Pair K P C) (acts : List (Act P C)) :
    Pair K P C := runFrom (Pair.step c) σ acts

/-! ## Reading the log -/

/-- Header key and message key of a message `who` sent. -/
def Event.sentBy (who : Party) : Event K C → Option (Bytes × K)
  | .sent x _ w mk => if x = who then some (w.header.dh, mk) else none
  | .accepted .. => none

/-- The AEAD key of a message `who` accepted. -/
def Event.acceptedBy (who : Party) : Event K C → Option K
  | .sent .. => none
  | .accepted x _ _ mk => if x = who then some mk else none

/-- The AEAD key of an encryption. -/
def Event.encryptKey : Event K C → Option K
  | .sent _ _ _ mk => some mk
  | .accepted .. => none

end GhostChat.Ref
