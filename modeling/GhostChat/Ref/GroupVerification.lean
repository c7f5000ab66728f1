import GhostChat.Ref.Group

/-!
# Comparing group states (group/state_verification.py, group/epoch_manager.py)

Members compare what they derived: a summary carries the cached hash of a
state, and an `EpochManager` keeps the hash it computes itself for every epoch
it is shown. The two hashes are derived by separate functions, one from the
cached fields' inputs and one from the state.

Secrets are compared as the bytes they are.
-/

namespace GhostChat.Ref

open GhostChat.Lib GhostChat.Lib.Effect

variable {K : Type}

/-! ## Summaries -/

structure GroupStateSummary (K : Type) where
  groupId : Bytes
  epoch : Nat
  groupHash : K
  memberIds : List Bytes

def summarizeState (st : GroupState K) : Except Exn (GroupStateSummary K) :=
  match st.groupHash with
  | none => .error (.valueError "GroupState missing group_hash")
  | some h => .ok {
      groupId := st.groupId
      epoch := st.epoch
      groupHash := h
      memberIds := (Odict.keys st.members).mergeSort (· ≤ ·) }

/-- The body of the loop over the remote summaries. -/
def summaryMatches (a : KeyAlg K) (loc remote : GroupStateSummary K) : Bool :=
  remote.groupId = loc.groupId && remote.epoch = loc.epoch &&
    a.bytes remote.groupHash = a.bytes loc.groupHash && remote.memberIds = loc.memberIds

def verifyConsistency (a : KeyAlg K) (localState : GroupState K)
    (remoteSummaries : List (GroupStateSummary K)) (previousEpoch : Option Nat) :
    Except Exn Bool := do
  let localSummary ← summarizeState localState
  if previousEpoch.any (localSummary.epoch < ·) then return false
  return remoteSummaries.all (summaryMatches a localSummary)

/-! ## `EpochManager` -/

structure EpochRecord (K : Type) where
  epoch : Nat
  groupHash : K

structure EpochManager (K : Type) where
  history : Odict Nat (EpochRecord K) := []

def EpochManager.record (a : KeyAlg K) (manager : EpochManager K) (st : GroupState K) :
    Except Exn (EpochManager K) := do
  let h ← st.computeGroupHash a
  return { history := Odict.set manager.history st.epoch { epoch := st.epoch, groupHash := h } }

/-- The hash is computed only where there is a record of the epoch. -/
def EpochManager.verifyState (a : KeyAlg K) (manager : EpochManager K) (st : GroupState K) :
    Except Exn Bool :=
  match Odict.get? manager.history st.epoch with
  | none => .ok false
  | some found => do
      let h ← st.computeGroupHash a
      return a.bytes found.groupHash = a.bytes h

/-! ## A replica -/

/-- The states a replica goes through, from the one it starts with to the one
it ends with; the first call that raises ends it all. -/
def GroupState.states (a : KeyAlg K) : GroupState K → List (GroupOp K) →
    Except Exn (List (GroupState K))
  | st, [] => .ok [st]
  | st, op :: ops =>
      match st.call a op with
      | .ok _ st' => do
          let sts ← GroupState.states a st' ops
          return st :: sts
      | .error e _ => .error e

end GhostChat.Ref
