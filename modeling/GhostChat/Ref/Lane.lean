import GhostChat.Ref.Pair

/-!
# Two engines with a queue each way

The two engines of `Ref/Pair.lean` with nobody between them but a transport
that loses messages and keeps their order. A delivery names the message it
delivers by its number among those the peer has sent; the numbers below it
that were not delivered are lost. The call of `ratchet_decrypt` may raise, as
it does after too long a loss, and the message is behind the party then too.
-/

namespace GhostChat.Ref

open GhostChat.Lib

variable {K P C : Type}

/-- The message of a call of `ratchet_encrypt` that returned. -/
def Event.wireOf (who : Party) : Event K C → Option (RatchetWireMessage C)
  | .sent x _ w _ => if x = who then some w else none
  | .accepted .. => none

/-- What `who` has sent, newest first. -/
def wiresOf (who : Party) (log : List (Event K C)) : List (RatchetWireMessage C) :=
  log.filterMap (Event.wireOf who)

/-- How many of the peer's messages a party has behind it is not part of the
program either. -/
structure Lane (K P C : Type) where
  pair : Pair K P C
  passed : Party → Nat := fun _ => 0

/-- A call of `ratchet_encrypt`, or of `ratchet_decrypt` on message number `i`
of the peer. -/
inductive LaneAct (P : Type) where
  | encrypt (who : Party) (plaintext : Bytes)
  | deliver (who : Party) (i : Nat) (generated : P)

def Lane.step (c : Crypto K P C) (σ : Lane K P C) : LaneAct P → Lane K P C
  | .encrypt who pt => { σ with pair := σ.pair.step c (.encrypt who pt) }
  | .deliver who i g =>
      match (wiresOf who.other σ.pair.log).reverse[i]? with
      | none => σ
      | some w => {
          pair := σ.pair.step c (.decrypt who w g)
          passed := Function.update σ.passed who (i + 1) }

end GhostChat.Ref
