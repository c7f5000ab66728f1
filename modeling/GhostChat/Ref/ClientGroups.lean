import GhostChat.Ref.GroupMessaging
import GhostChat.Ref.SessionManager

/-!
# The group manager as an object (client/group_manager.py)

`GroupManager` in `GroupMessaging.lean` is what one send looks at. A manager
that is used over time keeps references: a group id leads to a controller or a
holder, and through it to a group state that others may hold too, and to the
receiver that was made for it. Which objects are the same matters here. A
membership change is seen by everybody who holds the state, and a receiver
that is dropped takes its replay cache with it.

Group states are numbered in the order they come into the client's hands,
receivers in the order they are made, and a reference is such a number. A
number that is no object's leads nowhere.
-/

namespace GhostChat.Ref

open GhostChat.Lib GhostChat.Lib.Effect

variable {K P C : Type}

/-- A value of `_groups`: the state of the controller or holder, which of the
two it is, and the client's own leaf. -/
structure GroupEntry where
  state : Nat
  isController : Bool
  myLeafIndex : Nat
  deriving DecidableEq, Repr

/-- A messenger that `get_receiver` made, and the state it was made with. -/
structure GroupReceiver where
  messenger : GroupMessenger
  state : Nat
  deriving DecidableEq, Repr

/-- The manager with the objects there are. -/
structure LiveGroupManager (K : Type) where
  identityPk : Bytes
  states : List (GroupState K) := []
  messengers : List GroupReceiver := []
  groups : Odict Bytes GroupEntry := []
  receivers : Odict Bytes Nat := []

namespace LiveGroupManager

abbrev Method (K : Type) := EStateM Exn (LiveGroupManager K)

/-- `self._groups[group_id]`, with the state it leads to. -/
def lookup (mgr : LiveGroupManager K) (groupId : Bytes) : Option (GroupEntry × GroupState K) := do
  let entry ← Odict.get? mgr.groups groupId
  let state ← mgr.states[entry.state]?
  return (entry, state)

/-- `create_group`; every member comes with the leaf secret `os.urandom(32)`
gives for it. -/
def createGroup (a : KeyAlg K) (groupId : Bytes) (members : List (Bytes × K)) :
    Method K Unit := do
  let mgr ← get
  if mgr.identityPk ∉ members.map (·.1) then
    throw (.valueError "identity_pk must be in member_ids")
  if Odict.has mgr.groups groupId then throw (.valueError "Group already exists")
  let state ← lift (GroupState.create a groupId members)
  modify fun mgr => { mgr with
    states := mgr.states ++ [state]
    groups := Odict.set mgr.groups groupId {
      state := mgr.states.length
      isController := true
      myLeafIndex := (members.map (·.1)).idxOf mgr.identityPk } }

/-- Run a method of the state behind a group id. A holder refuses. -/
def withController (groupId : Bytes) (refusal : String) (x : EStateM Exn (GroupState K) Unit) :
    Method K Unit := fun mgr =>
  match mgr.lookup groupId with
  | none => .error (.keyError (reprBytes groupId)) mgr
  | some (entry, state) =>
      if entry.isController then
        match x state with
        | .ok u state' => .ok u { mgr with states := mgr.states.set entry.state state' }
        | .error e state' => .error e { mgr with states := mgr.states.set entry.state state' }
      -- `NotImplementedError` is a `RuntimeError`.
      else .error (.runtimeError refusal) mgr

/-- `add_group_member`. -/
def addGroupMember (a : KeyAlg K) (groupId memberId : Bytes) (leafSecret : K) : Method K Unit :=
  withController groupId "Only group creator can add members"
    (GroupState.addMember a memberId leafSecret)

/-- `remove_group_member`. -/
def removeGroupMember (a : KeyAlg K) (groupId memberId : Bytes) (replacementSecret : K) :
    Method K Unit :=
  withController groupId "Only group creator can remove members"
    (GroupState.removeMember a memberId replacementSecret)

/-- `get_messenger`, with the state the new messenger refers to. -/
def getMessenger (mgr : LiveGroupManager K) (groupId : Bytes) :
    Except Exn (Option (GroupMessenger × GroupState K)) :=
  match mgr.lookup groupId with
  | none => .ok none
  | some (entry, state) => do
      let messenger ← GroupMessenger.new state entry.myLeafIndex
      return some (messenger, state)

/-- `get_receiver`: the one there is, or a new one. -/
def getReceiver (groupId : Bytes) : Method K (Option Nat) := do
  let mgr ← get
  match mgr.lookup groupId with
  | none => return none
  | some (entry, state) =>
      match Odict.get? mgr.receivers groupId with
      | some receiver => return some receiver
      | none => do
          let messenger ← lift (GroupMessenger.new state 0)
          modify fun mgr => { mgr with
            messengers := mgr.messengers ++ [{ messenger := messenger, state := entry.state }]
            receivers := Odict.set mgr.receivers groupId mgr.messengers.length }
          return some mgr.messengers.length

/-- The messenger object with a number, and the state it refers to. -/
def receiver (mgr : LiveGroupManager K) (i : Nat) : Option (GroupReceiver × GroupState K) := do
  let r ← mgr.messengers[i]?
  let state ← mgr.states[r.state]?
  return (r, state)

/-- Run a method of a messenger object. -/
def onReceiver {α : Type} (i : Nat) (x : GroupState K → EStateM Exn GroupMessenger α) :
    Method K α := fun mgr =>
  match mgr.receiver i with
  | none => .error (.attributeError "no such messenger") mgr
  | some (r, state) =>
      match x state r.messenger with
      | .ok a m => .ok a { mgr with messengers := mgr.messengers.set i { r with messenger := m } }
      | .error e m =>
          .error e { mgr with messengers := mgr.messengers.set i { r with messenger := m } }

/-- `join_group`, with a state that is in the client's hands. -/
def joinGroup (groupId : Bytes) (state myLeafIndex : Nat) : Method K Unit := do
  let mgr ← get
  if Odict.has mgr.groups groupId then throw (.valueError "Already in group")
  modify fun mgr => { mgr with
    groups := Odict.set mgr.groups groupId
      { state := state, isController := false, myLeafIndex := myLeafIndex }
    receivers := Odict.erase mgr.receivers groupId }

/-- `set_state`, with the state of the controller. -/
def setState (groupId : Bytes) (state myLeafIndex : Nat) : Method K Unit :=
  modify fun mgr => { mgr with
    groups := Odict.set mgr.groups groupId
      { state := state, isController := true, myLeafIndex := myLeafIndex }
    receivers := Odict.erase mgr.receivers groupId }

/-- `get_receiver(group_id).decrypt(message, ad)`, with the receiver that did
it. -/
def receiverDecrypt (c : Crypto K P C) (groupId : Bytes) (message : GroupMessage C)
    (ad : Bytes) : Method K (Nat × Bytes) := do
  match ← getReceiver groupId with
  | none => throw (.attributeError "'NoneType' object has no attribute 'decrypt'")
  | some i => do
      let plaintext ← onReceiver i fun state => GroupMessenger.decrypt c state message ad
      return (i, plaintext)

end LiveGroupManager

/-! ## A manager over time -/

/-- The calls on a manager; a state that somebody else made comes into the
client's hands with `arrive`. -/
inductive GroupCall (K C : Type) where
  | arrive (state : GroupState K)
  | createGroup (groupId : Bytes) (members : List (Bytes × K))
  | joinGroup (groupId : Bytes) (state myLeafIndex : Nat)
  | setState (groupId : Bytes) (state myLeafIndex : Nat)
  | addGroupMember (groupId memberId : Bytes) (leafSecret : K)
  | removeGroupMember (groupId memberId : Bytes) (replacementSecret : K)
  | decrypt (groupId : Bytes) (message : GroupMessage C) (ad : Bytes)

/-- A manager, and the messages that were decrypted with the receiver that did
it, newest first. -/
structure GroupClient (K C : Type) where
  manager : LiveGroupManager K
  accepted : List (Nat × GroupMessage C) := []

def GroupClient.step (c : Crypto K P C) (σ : GroupClient K C) :
    GroupCall K C → GroupClient K C
  | .arrive state => { σ with
      manager := { σ.manager with states := σ.manager.states ++ [state] } }
  | .createGroup groupId members => { σ with
      manager := after (LiveGroupManager.createGroup c.toKeyAlg groupId members σ.manager) }
  | .joinGroup groupId state leaf => { σ with
      manager := after (LiveGroupManager.joinGroup groupId state leaf σ.manager) }
  | .setState groupId state leaf => { σ with
      manager := after (LiveGroupManager.setState groupId state leaf σ.manager) }
  | .addGroupMember groupId memberId secret => { σ with
      manager := after
        (LiveGroupManager.addGroupMember c.toKeyAlg groupId memberId secret σ.manager) }
  | .removeGroupMember groupId memberId secret => { σ with
      manager := after
        (LiveGroupManager.removeGroupMember c.toKeyAlg groupId memberId secret σ.manager) }
  | .decrypt groupId message ad =>
      match LiveGroupManager.receiverDecrypt c groupId message ad σ.manager with
      | .ok (i, _) mgr => { manager := mgr, accepted := (i, message) :: σ.accepted }
      | .error _ mgr => { σ with manager := mgr }

end GhostChat.Ref
