import GhostChat.Ref.GroupMessaging

/-!
# A group whose members keep their messengers

Everybody shares one group state. Whoever comes makes two `GroupMessenger`s
over it, one to send with and one to receive with, and keeps them. Members
come and go; what a member sends goes to whoever else is a member at that
moment, and arrives when it arrives, or never, or again.

What a talker has been handed is written down beside its messengers: which
messages, and the headers of those that arrived while the state took them.
-/

namespace GhostChat.Ref

open GhostChat.Lib GhostChat.Lib.Effect

variable {K P C : Type}

/-- `header.group_id`, `header.epoch` and `header.sender_leaf_index` are the
state's own: the checks of `decrypt` before the replay cache. -/
def Current (st : GroupState K) (header : GroupMessageHeader) : Prop :=
  header.groupId = st.groupId ∧ header.epoch = st.epoch ∧
    (st.members.any fun e => (e.2.leafIndex : Int) = header.senderLeafIndex) = true

instance Current.decidable (st : GroupState K) (header : GroupMessageHeader) :
    Decidable (Current st header) := inferInstanceAs (Decidable (_ ∧ _ ∧ _))

structure Talker where
  sender : GroupMessenger
  receiver : GroupMessenger
  handed : List Nat := []
  heard : List GroupMessageHeader := []

/-- A message with what is in it, and the members it was sent to. -/
structure RoomMessage (C : Type) where
  message : GroupMessage C
  plaintext : Bytes
  ad : Bytes
  audience : List Bytes

structure Room (K C : Type) where
  state : GroupState K
  talkers : Odict Bytes Talker := []
  sent : List (RoomMessage C) := []

/-- A member's two messengers. -/
def seat (st : GroupState K) (e : Bytes × GroupMember) : Option (Bytes × Talker) :=
  match GroupMessenger.new st e.2.leafIndex with
  | .ok m => some (e.1, { sender := m, receiver := m })
  | .error _ => none

/-- The room of a new group. -/
def Room.new (st : GroupState K) : Room K C where
  state := st
  talkers := st.members.filterMap (seat st)

/-- Membership changes, and messages. -/
inductive RoomAct (K : Type) where
  | change (op : GroupOp K)
  | send (identityPk plaintext ad : Bytes)
  | deliver (n : Nat) (memberPk : Bytes)

/-- Who is a member after a change and was not before takes a seat. -/
def takeSeat (st st' : GroupState K) (talkers : Odict Bytes Talker) :
    GroupOp K → Odict Bytes Talker
  | .remove _ _ => talkers
  | .add identityPk _ =>
      if Odict.has st.members identityPk then talkers
      else match Odict.get? st'.members identityPk with
        | none => talkers
        | some member =>
            match seat st' (identityPk, member) with
            | none => talkers
            | some (_, talker) => Odict.set talkers identityPk talker

def Room.step (c : Crypto K P C) (σ : Room K C) : RoomAct K → Room K C
  | .change op =>
      let st' := after (σ.state.call c.toKeyAlg op)
      { σ with state := st', talkers := takeSeat σ.state st' σ.talkers op }
  | .send identityPk plaintext ad =>
      if Odict.has σ.state.members identityPk then
        match Odict.get? σ.talkers identityPk with
        | none => σ
        | some t =>
            match GroupMessenger.encrypt c σ.state plaintext ad t.sender with
            | .ok message m => { σ with
                talkers := Odict.set σ.talkers identityPk { t with sender := m }
                sent := σ.sent ++ [{
                  message := message, plaintext := plaintext, ad := ad
                  audience := (Odict.keys σ.state.members).filter (· ≠ identityPk) }] }
            | .error _ m => { σ with
                talkers := Odict.set σ.talkers identityPk { t with sender := m } }
      else σ
  | .deliver n memberPk =>
      match σ.sent[n]?, Odict.get? σ.talkers memberPk with
      | some x, some t => { σ with
          talkers := Odict.set σ.talkers memberPk { t with
            receiver := after (GroupMessenger.decrypt c σ.state x.message x.ad t.receiver)
            handed := n :: t.handed
            heard := if Current σ.state x.message.header then x.message.header :: t.heard
              else t.heard } }
      | _, _ => σ

end GhostChat.Ref
