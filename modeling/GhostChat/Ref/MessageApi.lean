import Mathlib.Data.List.Infix
import GhostChat.Ref.ClientGroups
import GhostChat.Ref.SealedSender

/-!
# The message API (client/message_api.py)

An endpoint is a profile's two managers and what waits to be read: an inbox
of envelopes and sealed dicts, and one inbox of envelope dicts for each
group. Reading goes through an inbox from its head. What happens to an item
that cannot be read is different in the three: `recv_text` and `recv_sealed`
have taken it out before they try, and the one raises and the other drops it or
raises; `recv_group_text` puts it back at the head and stops.

An exception is told apart by its text, so the texts matter.
-/

namespace GhostChat.Ref

open GhostChat.Lib GhostChat.Lib.Effect

variable {K P : Type}

/-! ## Texts -/

/-- `b.decode("utf-8")`. -/
def decodeUtf8 (b : Bytes) : Except Exn String :=
  match String.fromUTF8? b.toByteArray with
  | some s => .ok s
  | none => .error (.valueError "'utf-8' codec can't decode bytes")

theorem utf8Encode_toByteArray (s : String) : (utf8Encode s).toByteArray = s.toByteArray := by
  rw [← String.utf8Encode_toList]
  rfl

/-- `s.encode("utf-8").decode("utf-8") == s`. -/
@[simp] theorem decodeUtf8_utf8Encode (s : String) : decodeUtf8 (utf8Encode s) = .ok s := by
  rw [decodeUtf8, String.fromUTF8?, utf8Encode_toByteArray, dif_pos s.isValidUTF8]
  rfl

/-- `isinstance(e, ValueError)`. -/
def Exn.isValueError : Exn → Bool
  | .valueError _ | .jsonDecodeError _ => true
  | _ => false

/-- `text in str(e)`. -/
def Exn.mentions (e : Exn) (text : String) : Bool := decide (text.toList <:+: e.str.toList)

/-! ## Group envelopes (group/group_messaging.py, protocol/message_format.py) -/

/-- `GroupMessage.to_dict`. -/
def GroupMessage.toDict (m : GroupMessage Bytes) : List (String × Json) := [
  ("gid", .str (b64Encode m.header.groupId)),
  ("e", .int m.header.epoch),
  ("s", .int m.header.senderLeafIndex),
  ("c", .int m.header.counter),
  ("ct", .str (b64Encode m.ciphertext))]

/-- `data[key]`. -/
def Json.item (data : List (String × Json)) (key : String) : Except Exn Json :=
  match Odict.get? data key with
  | some v => .ok v
  | none => .error (.keyError key)

/-- The `try` of `GroupMessage.from_dict`. -/
def GroupMessage.readFields (data : List (String × Json)) : Except Exn (GroupMessage Bytes) := do
  let gid ← Json.item data "gid" >>= b64uDecode
  let e ← Json.item data "e" >>= Json.toInt
  let s ← Json.item data "s" >>= Json.toInt
  let c ← Json.item data "c" >>= Json.toInt
  let ct ← Json.item data "ct" >>= b64uDecode
  return {
    header := { groupId := gid, epoch := e, senderLeafIndex := s, counter := c }
    ciphertext := ct }

/-- `GroupMessage.from_dict`. -/
def GroupMessage.fromDict (data : List (String × Json)) : Except Exn (GroupMessage Bytes) := do
  let m ← match GroupMessage.readFields data with
    | .ok m => .ok m
    | .error (.keyError _) | .error (.typeError _) | .error (.valueError _) =>
        .error (.valueError "Malformed group message")
    | .error e => .error e
  if m.header.epoch < initialEpoch ∨ m.header.senderLeafIndex < 0 ∨ m.header.counter < 0 then
    throw (.valueError "Invalid group message fields")
  return m

def groupMessageEnvelopeToDict (groupId : Bytes) (payload : List (String × Json)) : Json := .dict [
  ("recipient_locator", .str (b64Encode groupId)),
  ("group_message", .dict payload)]

def groupMessageEnvelopeFromDict : Json → Except Exn (Bytes × List (String × Json))
  | .dict data =>
      let locator := Json.get data "recipient_locator"
      match Json.get data "group_message" with
      | .dict payload => do
          if ¬ locator.truthy then throw (.valueError "Invalid group message envelope")
          let groupId ← b64uDecode locator
          return (groupId, payload)
      | _ => .error (.valueError "Invalid group message envelope")
  | _ => .error (.attributeError "object has no attribute 'get'")

/-! ## Endpoints -/

/-- What may lie in an inbox. -/
inductive InboxItem where
  | envelope (env : ProtocolEnvelope Bytes)
  | dict (fields : List (String × Json))

/-- An inbox item, and the key pair `generate()` gives should opening it turn
the ratchet. -/
structure Arrival (P : Type) where
  item : InboxItem
  generated : P

structure InMemoryEndpoint (K P : Type) where
  manager : SessionManager K P
  inbox : List (Arrival P) := []
  groupInbox : Odict Bytes (List Json) := []
  groupManager : Option (LiveGroupManager K) := none

/-- `_endpoints`. -/
abbrev Endpoints (K P : Type) := Odict String (InMemoryEndpoint K P)

namespace InMemoryEndpoint

abbrev Method (K P : Type) := EStateM Exn (InMemoryEndpoint K P)

/-- Run a method of the session manager. -/
def onManager {α : Type} (x : SessionManager.Method K P α) : Method K P α :=
  zoom (·.manager) (fun m e => { e with manager := m }) x

end InMemoryEndpoint

/-! ## Sealed envelopes -/

/-- `is_sealed_envelope`. -/
def isSealedEnvelope : InboxItem → Bool
  | .dict fields => Odict.has fields "sp" && Odict.has fields "recipient_locator"
  | .envelope _ => false

/-- `make_dummy_sealed_outer`; `sp` is what `os.urandom(size)` gives. -/
def makeDummySealedOuter (recipientLocator : String) (ttl : Int) (sp : Bytes) :
    List (String × Json) := [
  ("v", .int sealedSenderVersion),
  ("recipient_locator", .str recipientLocator),
  ("ttl", .int ttl),
  ("sp", .str (b64Encode sp)),
  ("pad", .str "")]

/-- The size of its payload. -/
def dummySize (payloadSize : Nat) : Nat := max payloadSize (nonceSize + 16)

def undecryptable : String := "could not be decrypted"

/-- The `try` with its `except` in `recv_sealed`: an entry for the result, or
`none` for an envelope that is dropped. -/
def openSealed (c : Crypto K P Bytes) (dropUndecryptable : Bool) (item : Json) (generated : P) :
    SessionManager.Method K P (Option (Bytes × String)) := fun m =>
  match (do
      let (peerId, plaintext) ← SessionManager.decryptSealed c item generated
      let text ← lift (decodeUtf8 plaintext)
      return some (peerId, text) : SessionManager.Method K P (Option (Bytes × String))) m with
  | .ok r m' => .ok r m'
  | .error e m' =>
      if e.isValueError && (dropUndecryptable && e.mentions undecryptable) then .ok none m'
      else .error e m'

/-- The loop of `recv_sealed`, with what it has stepped over and what it has
yet to look at. -/
def recvSealedLoop (c : Crypto K P Bytes) (dropUndecryptable : Bool) :
    (kept rest : List (Arrival P)) → (out : List (Bytes × String)) →
    InMemoryEndpoint.Method K P (List (Bytes × String))
  | _, [], out => pure out
  | kept, ⟨.dict fields, generated⟩ :: rest, out =>
      if isSealedEnvelope (.dict fields) then do
        modify fun e => { e with inbox := kept ++ rest }
        match ← InMemoryEndpoint.onManager
            (openSealed c dropUndecryptable (.dict fields) generated) with
        | some entry => recvSealedLoop c dropUndecryptable kept rest (out ++ [entry])
        | none => recvSealedLoop c dropUndecryptable kept rest out
      else recvSealedLoop c dropUndecryptable (kept ++ [⟨.dict fields, generated⟩]) rest out
  | kept, ⟨.envelope env, generated⟩ :: rest, out =>
      recvSealedLoop c dropUndecryptable (kept ++ [⟨.envelope env, generated⟩]) rest out

/-- `recv_sealed`, from the endpoint on. -/
def recvSealed (c : Crypto K P Bytes) (dropUndecryptable : Bool) :
    InMemoryEndpoint.Method K P (List (Bytes × String)) := do
  let endpoint ← get
  recvSealedLoop c dropUndecryptable [] endpoint.inbox []

/-! ## Plain envelopes -/

/-- The loop of `recv_text`, with what it has stepped over and what it has yet
to look at. Whose envelope it is makes no difference. -/
def recvTextLoop (c : Crypto K P Bytes) (peerId : Bytes) :
    (kept rest : List (Arrival P)) → (out : List String) →
    InMemoryEndpoint.Method K P (List String)
  | _, [], out => pure out
  | kept, ⟨.envelope env, generated⟩ :: rest, out => do
      modify fun e => { e with inbox := kept ++ rest }
      let plaintext ← InMemoryEndpoint.onManager
        (SessionManager.decryptFrom c peerId env generated)
      let text ← lift (decodeUtf8 plaintext)
      recvTextLoop c peerId kept rest (out ++ [text])
  | kept, ⟨.dict fields, generated⟩ :: rest, out =>
      recvTextLoop c peerId (kept ++ [⟨.dict fields, generated⟩]) rest out

/-- `recv_text`, from the endpoint on. -/
def recvText (c : Crypto K P Bytes) (peerId : Bytes) :
    InMemoryEndpoint.Method K P (List String) := do
  let endpoint ← get
  recvTextLoop c peerId [] endpoint.inbox []

/-! ## Group texts -/

/-- `_endpoints[p].group_inbox.setdefault(group_id, []).append(envelope)`, for
a profile that has registered. -/
def appendGroup (groupId : Bytes) (envelope : Json) (endpoints : Endpoints K P) (p : String) :
    Endpoints K P :=
  match Odict.get? endpoints p with
  | none => endpoints
  | some e => Odict.set endpoints p { e with
      groupInbox := Odict.set e.groupInbox groupId
        ((Odict.get? e.groupInbox groupId).getD [] ++ [envelope]) }

namespace Endpoints

abbrev Method (K P : Type) := EStateM Exn (Endpoints K P)

/-- Run a method of one endpoint. -/
def onEndpoint {α : Type} (profile : String) (x : InMemoryEndpoint.Method K P α) :
    Method K P α := fun endpoints =>
  match Odict.get? endpoints profile with
  | none => .error (.keyError profile) endpoints
  | some endpoint =>
      match x endpoint with
      | .ok a e => .ok a (Odict.set endpoints profile e)
      | .error exn e => .error exn (Odict.set endpoints profile e)

/-- The message a call of `send_group_text` makes; the messenger is a new one,
and nobody keeps it. -/
def groupMessageOf (c : Crypto K P Bytes) (endpoint : InMemoryEndpoint K P) (groupId : Bytes)
    (text : String) : Except Exn (GroupMessage Bytes) :=
  match endpoint.groupManager with
  | none => .error (.valueError "No group_manager registered for profile")
  | some manager => do
      match ← manager.getMessenger groupId with
      | none => .error (.valueError "No group state for group_id")
      | some (messenger, state) =>
          match GroupMessenger.encrypt c state (utf8Encode text) [] messenger with
          | .ok msg _ => .ok msg
          | .error e _ => .error e

/-- `send_group_text`. -/
def sendGroupText (c : Crypto K P Bytes) (profile : String) (groupId : Bytes) (text : String)
    (memberProfiles : List String) : Method K P Unit := do
  let endpoints ← get
  match Odict.get? endpoints profile with
  | none => throw (.keyError profile)
  | some endpoint => do
      let msg ← lift (groupMessageOf c endpoint groupId text)
      let envelope := groupMessageEnvelopeToDict groupId msg.toDict
      modify fun endpoints => memberProfiles.foldl (appendGroup groupId envelope) endpoints

end Endpoints

/-- The `try` in `recv_group_text`. -/
def readGroupEnvelope (c : Crypto K P Bytes) (st : GroupState K) (envelope : Json) :
    EStateM Exn GroupMessenger String := do
  let (_, payload) ← lift (groupMessageEnvelopeFromDict envelope)
  let msg ← lift (GroupMessage.fromDict payload)
  let plaintext ← GroupMessenger.decrypt c st msg []
  lift (decodeUtf8 plaintext)

/-- The loop of `recv_group_text`: the texts, and what is left in the inbox.
An envelope that cannot be read is put back, and ends it. -/
def recvGroupLoop (c : Crypto K P Bytes) (st : GroupState K) :
    (inbox : List Json) → (out : List String) → EStateM Exn GroupMessenger (List String × List Json)
  | [], out => pure (out, [])
  | envelope :: rest, out => fun m =>
      match readGroupEnvelope c st envelope m with
      | .ok text m' => recvGroupLoop c st rest (out ++ [text]) m'
      | .error _ m' => .ok (out, envelope :: rest) m'

/-- The part of `recv_group_text` that concerns the group manager. -/
def readGroupInbox (c : Crypto K P Bytes) (groupId : Bytes) (inbox : List Json) :
    LiveGroupManager.Method K (Option (List String × List Json)) := do
  match ← LiveGroupManager.getReceiver groupId with
  | none => return none
  | some i => do
      let r ← LiveGroupManager.onReceiver i fun st => recvGroupLoop c st inbox []
      return some r

/-- `recv_group_text`, from the endpoint on. -/
def InMemoryEndpoint.recvGroupText (c : Crypto K P Bytes) (groupId : Bytes) :
    InMemoryEndpoint.Method K P (List String) := fun e =>
  match e.groupManager with
  | none => .ok [] e
  | some manager =>
      let inbox := (Odict.get? e.groupInbox groupId).getD []
      match readGroupInbox c groupId inbox manager with
      | .error exn manager' => .error exn { e with groupManager := some manager' }
      | .ok none manager' => .ok [] { e with groupManager := some manager' }
      | .ok (some (out, left)) manager' => .ok out { e with
          groupManager := some manager'
          groupInbox :=
            if Odict.has e.groupInbox groupId then Odict.set e.groupInbox groupId left
            else e.groupInbox }

/-! ## A group that uses it -/

/-- The endpoints, the texts that were sent with who sent them, and what each
profile has been given by `recv_group_text` so far. -/
structure GroupChat (K P : Type) where
  endpoints : Endpoints K P
  sent : List (String × String) := []
  received : String → List String := fun _ => []

inductive ChatAct where
  | send (profile text : String) (memberProfiles : List String)
  | recv (profile : String)

def GroupChat.step (c : Crypto K P Bytes) (groupId : Bytes) (σ : GroupChat K P) :
    ChatAct → GroupChat K P
  | .send profile text memberProfiles =>
      match Endpoints.sendGroupText c profile groupId text memberProfiles σ.endpoints with
      | .ok _ endpoints => { σ with
          endpoints := endpoints, sent := σ.sent ++ [(profile, text)] }
      | .error _ endpoints => { σ with endpoints := endpoints }
  | .recv profile =>
      match Endpoints.onEndpoint profile (InMemoryEndpoint.recvGroupText c groupId)
          σ.endpoints with
      | .ok out endpoints => { σ with
          endpoints := endpoints
          received := Function.update σ.received profile (σ.received profile ++ out) }
      | .error _ endpoints => { σ with endpoints := endpoints }

end GhostChat.Ref
