import GhostChat.Ref.MessageApi

/-!
# Two profiles that exchange texts (client/message_api.py)

`send_text` looks both profiles up, asks the sender's manager for an envelope and
puts it at the end of the recipient's inbox; `recv_text` and `recv_sealed` are
those of one endpoint. `_endpoints` is the only thing the calls share.
-/

namespace GhostChat.Ref

open GhostChat.Lib GhostChat.Lib.Effect

variable {K P : Type}

namespace Endpoints

/-- `register_endpoint`. -/
def registerEndpoint (profile : String) (manager : SessionManager K P)
    (groupManager : Option (LiveGroupManager K)) : Method K P Unit :=
  modify fun endpoints =>
    Odict.set endpoints profile { manager := manager, groupManager := groupManager }

/-- `_endpoints[profile]`. -/
def lookup (profile : String) : Method K P (InMemoryEndpoint K P) := do
  let endpoints ← get
  match Odict.get? endpoints profile with
  | none => throw (.keyError profile)
  | some endpoint => return endpoint

/-- `recipient.inbox.append(item)`. -/
def deliver (profile : String) (arrival : Arrival P) : Method K P Unit :=
  onEndpoint profile (modify fun e => { e with inbox := e.inbox ++ [arrival] })

/-- What `encrypt_sealed` returns is a dict. -/
def sealedItem : Json → InboxItem
  | .dict fields => .dict fields
  | _ => .dict []

/-- `send_text`; a sealed one has the default `ttl`. -/
def sendText (c : Crypto K P Bytes) (profile recipientProfile : String) (peerId : Bytes)
    (text : String) (sealedSender : Bool) (nonce : Bytes) (generated : P) : Method K P Unit := do
  let _ ← lookup profile
  let _ ← lookup recipientProfile
  if sealedSender then
    let outer ← onEndpoint profile (InMemoryEndpoint.onManager
      (SessionManager.encryptSealed c peerId (utf8Encode text) recipientProfile 60 nonce))
    deliver recipientProfile ⟨sealedItem outer, generated⟩
  else
    let env ← onEndpoint profile (InMemoryEndpoint.onManager
      (SessionManager.encryptFor c peerId (utf8Encode text)))
    deliver recipientProfile ⟨.envelope env, generated⟩

end Endpoints

/-! ## Runs -/

/-- The endpoints, and for each of two parties the texts it has sent and those
it was given by `recv_text`, oldest first. -/
structure TextChat (K P : Type) where
  endpoints : Endpoints K P
  sent : Party → List String := fun _ => []
  received : Party → List String := fun _ => []

/-- Besides the two calls, anybody may put a dict into an inbox. -/
inductive TextAct (P : Type) where
  | send (who : Party) (text : String) (generated : P)
  | recv (who : Party)
  | post (who : Party) (fields : List (String × Json)) (generated : P)

def TextChat.step (c : Crypto K P Bytes) (l : Linking K P) (profile : Party → String)
    (σ : TextChat K P) : TextAct P → TextChat K P
  | .send who text generated =>
      match Endpoints.sendText c (profile who) (profile who.other) (l.peerId who) text false []
          generated σ.endpoints with
      | .ok _ endpoints => { σ with
          endpoints := endpoints
          sent := Function.update σ.sent who (σ.sent who ++ [text]) }
      | .error _ endpoints => { σ with endpoints := endpoints }
  | .recv who =>
      match Endpoints.onEndpoint (profile who) (recvText c (l.peerId who)) σ.endpoints with
      | .ok texts endpoints => { σ with
          endpoints := endpoints
          received := Function.update σ.received who (σ.received who ++ texts) }
      | .error _ endpoints => { σ with endpoints := endpoints }
  | .post who fields generated => { σ with
      endpoints := after (Endpoints.deliver (profile who) ⟨.dict fields, generated⟩ σ.endpoints) }

/-- Both profiles are registered, with managers that have made their session with
each other by `create_symmetric_session`, and empty inboxes. -/
structure TextChat.Starts (c : Crypto K P Bytes) (l : Linking K P) (profile : Party → String)
    (before : Party → SessionManager K P) (σ : TextChat K P) : Prop where
  registered : ∀ who, ∃ m groupManager,
    SessionManager.createSymmetricSession c (l.peerId who) l.rootKey (l.dhs who)
      (c.publicKey (l.dhs who.other)) who.isInitiator (before who) = .ok () m ∧
    Odict.get? σ.endpoints (profile who)
      = some { manager := m, groupManager := groupManager }
  sent : ∀ who, σ.sent who = []
  received : ∀ who, σ.received who = []

end GhostChat.Ref
